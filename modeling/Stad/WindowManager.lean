import Stad.AnnotationCore
import Stad.LockedCell
import Stad.SetEdits

/-!
The windows of the WPF view. A window registers itself when it is built and unregisters when
it is closed, under a lock; who looks for a window that shows something takes no lock.
-/

namespace Stad.WindowManager

open Interleaving LockedCell SetEdits

inductive Call (ω γ : Type) where
  | register (window : ω)
  | unregister (window : ω)
  | tryShow (context : γ)
  deriving DecidableEq, Repr

variable {ω γ ρ : Type} [DecidableEq ω]

def register (toString : ω → String) (window : ω) (list : List ω) : Except Thrown (List ω) :=
  if window ∈ list then throw (.exception s!"already registered : {toString window}")
  else pure (list ++ [window])

def unregister (window : ω) (list : List ω) : Except Thrown (List ω) := pure (list.erase window)

/-- A window that is no `IWindow` shows nothing. -/
def tryShow (asIWindow : ω → Option (γ → Bool)) (context : γ) : List ω → Bool
  | [] => false
  | window :: list =>
      match asIWindow window with
      | some iWindow => if iWindow context then true else tryShow asIWindow context list
      | none => tryShow asIWindow context list

def Call.request (toString : ω → String) : Call ω γ → Request (List ω) Thrown
  | .register window => .change (WindowManager.register toString window)
  | .unregister window => .change (WindowManager.unregister window)
  | .tryShow _ => .look

def windowManager (toString : ω → String) (call : ρ → Call ω γ) :
    System ρ (Cell ρ (List ω)) (Phase (List ω) Thrown) Unit :=
  system (fun caller => (call caller).request toString) []

/-! What the calls do to the list, when they come one after another. -/

def Call.edit : Call ω γ → Option (Edit ω)
  | .register window => some (.add window)
  | .unregister window => some (.remove window)
  | .tryShow _ => none

def edits (call : ρ → Call ω γ) (turns : List ρ) : List (Edit ω) :=
  turns.filterMap fun caller => (call caller).edit

def Registered (call : ρ → Call ω γ) (turns : List ρ) (window : ω) : Prop :=
  lastEdit (edits call turns) window = some (.add window)

variable {toString : ω → String} {asIWindow : ω → Option (γ → Bool)} {call : ρ → Call ω γ}

omit [DecidableEq ω] in
theorem tryShow_iff {context : γ} {list : List ω} : tryShow asIWindow context list = true ↔
    ∃ window ∈ list, ∃ iWindow, asIWindow window = some iWindow ∧ iWindow context = true := by
  induction list with
  | nil => simp [tryShow]
  | cons window list ih =>
      rw [tryShow]
      cases shows : asIWindow window with
      | none => simp [ih, shows]
      | some iWindow => by_cases shown : iWindow context = true <;> simp [ih, shows, shown]

theorem register_known {window : ω} {list : List ω} (known : window ∈ list) :
    register toString window list =
      .error (.exception s!"already registered : {toString window}") := by
  rw [register, if_pos known]
  rfl

theorem register_new {window : ω} {list : List ω} (new : window ∉ list) :
    register toString window list = .ok (list ++ [window]) := by
  rw [register, if_neg new]
  rfl

theorem perform_edits {list : List ω} (nodup : list.Nodup) (request : Call ω γ) :
    (request.request toString).perform list = applyAll list request.edit.toList := by
  cases request with
  | register window =>
      by_cases known : window ∈ list
      · simp [Call.request, Request.perform, register_known known, Call.edit, applyAll, Edit.apply,
          known]
      · simp [Call.request, Request.perform, register_new known, Call.edit, applyAll, Edit.apply,
          known]
  | unregister window =>
      change list.erase window = list.filter fun other => other ≠ window
      rw [nodup.erase_eq_filter]
      exact List.filter_congr fun other _ => by by_cases same : other = window <;> simp [same]
  | tryShow context => rfl

theorem serial_edits (turns : List ρ) :
    serial (fun caller => (call caller).request toString) [] turns =
      applyAll [] (edits call turns) := by
  induction turns using List.reverseRecOn with
  | nil => rfl
  | append_singleton turns caller ih =>
      have nodup := nodup_applyAll List.nodup_nil (edits call turns)
      have last : edits call (turns ++ [caller]) = edits call turns ++ (call caller).edit.toList := by
        cases asked : (call caller).edit <;> simp [edits, asked]
      rw [serial_append, ih, last, applyAll_append, ← perform_edits nodup]
      rfl

theorem mem_serial_iff {turns : List ρ} {window : ω} :
    window ∈ serial (fun caller => (call caller).request toString) [] turns ↔
      Registered call turns window := by
  rw [serial_edits, mem_applyAll_iff]
  simp [Registered]

def Answered (toString : ω → String) (asIWindow : ω → Option (γ → Bool)) (call : ρ → Call ω γ)
    (before : List ρ) (answer : Answer (List ω) Thrown) : Call ω γ → Prop
  | .register window =>
      answer = .done ∧ ¬Registered call before window ∨
        answer = .thrown (.exception s!"already registered : {toString window}") ∧
          Registered call before window
  | .unregister _ => answer = .done
  | .tryShow context => ∃ list, answer = .seen list ∧ (tryShow asIWindow context list = true ↔
      ∃ window, Registered call before window ∧
        ∃ iWindow, asIWindow window = some iWindow ∧ iWindow context = true)

theorem answerOn_serial (before : List ρ) (caller : ρ) :
    Answered toString asIWindow call before
      (((call caller).request toString).answerOn
        (serial (fun caller => (call caller).request toString) [] before)) (call caller) := by
  have listed (window : ω) :
      window ∈ serial (fun caller => (call caller).request toString) [] before ↔
        Registered call before window := mem_serial_iff
  generalize serial (fun caller => (call caller).request toString) [] before = list at listed
  cases call caller with
  | register window =>
      by_cases known : window ∈ list
      · refine Or.inr ⟨?_, (listed window).mp known⟩
        simp only [Call.request, Request.answerOn, register_known known]
      · refine Or.inl ⟨?_, fun registered => known ((listed window).mpr registered)⟩
        simp only [Call.request, Request.answerOn, register_new known]
  | unregister window => rfl
  | tryShow context => exact ⟨list, rfl, by simp only [tryShow_iff, listed]⟩

theorem registered_by {turns : List ρ} {window : ω} (registered : Registered call turns window) :
    ∃ caller ∈ turns, call caller = .register window := by
  have listed := List.mem_reverse.mp (List.mem_of_find?_eq_some registered)
  obtain ⟨caller, took, edit⟩ := List.mem_filterMap.mp listed
  refine ⟨caller, took, ?_⟩
  cases asked : call caller <;> simp_all [Call.edit]

variable [DecidableEq ρ]

/-- Whatever threads are doing, at most one of them changes the list at a time, the list holds
each registered window once, every call answers by the calls that took effect before it, no
call is stuck, and a window that one call registers is registered without an exception. -/
theorem windowManager_serialized (asIWindow : ω → Option (γ → Bool))
    {moves : List (Move ρ (Cell ρ (List ω)) (Phase (List ω) Thrown))}
    {world : Interleaving.World ρ (Cell ρ (List ω)) (Phase (List ω) Thrown)}
    (run : (windowManager toString call).FreeRun moves world) :
    (∀ caller other, (world.own caller).inside = true → (world.own other).inside = true →
      caller = other) ∧
    world.shared.content.Nodup ∧
    (∀ window, window ∈ world.shared.content ↔ Registered call (turns moves) window) ∧
    (∀ caller answer, (world.own caller).answer? = some answer →
      ∃ before after, turns moves = before ++ caller :: after ∧ caller ∉ before ∧
        Answered toString asIWindow call before answer (call caller)) ∧
    (∀ caller, (∀ answer, world.own caller ≠ .returned answer) →
      ∃ other, (other = caller ∨ world.shared.holder = some other) ∧
        ((windowManager toString call).step world other ()).isSome) ∧
    (∀ caller window, call caller = .register window →
      (∀ other, call other = .register window → other = caller) →
      ∀ answer, (world.own caller).answer? = some answer → answer = .done) := by
  have serialized := run_serialized run
  have answers (caller : ρ) (answer : Answer (List ω) Thrown)
      (answered : (world.own caller).answer? = some answer) :
      ∃ before after, turns moves = before ++ caller :: after ∧ caller ∉ before ∧
        Answered toString asIWindow call before answer (call caller) := by
    obtain ⟨before, after, ordered, agrees⟩ := serialized.answered caller answer answered
    have once := serialized.once
    rw [ordered] at once
    refine ⟨before, after, ordered, ?_, ?_⟩
    · intro earlier
      exact (List.nodup_append.mp once).2.2 caller earlier caller List.mem_cons_self rfl
    · rw [agrees]
      exact answerOn_serial before caller
  refine ⟨?_, ?_, ?_, answers, fun caller going => serialized.goes_on going, ?_⟩
  · intro caller other holds alsoHolds
    have holder := (serialized.inside caller).mp holds
    rw [(serialized.inside other).mp alsoHolds, Option.some.injEq] at holder
    exact holder.symm
  · rw [serialized.content, serial_edits]
    exact nodup_applyAll List.nodup_nil _
  · intro window
    rw [serialized.content]
    exact mem_serial_iff
  · intro caller window asked once answer answered
    obtain ⟨before, after, -, new, agrees⟩ := answers caller answer answered
    rw [asked] at agrees
    rcases agrees with ⟨done, -⟩ | ⟨-, registered⟩
    · exact done
    · obtain ⟨other, took, same⟩ := registered_by registered
      rw [once other same] at took
      exact absurd took new

/-! One thread registers a window while another looks for it. -/

theorem registerAndLook_serialized :
    ∃ moves world, (windowManager (fun _ => "Stad.View.Wpf.UI.Windows.MainWindow")
        fun caller : Bool => if caller then .register 0 else .tryShow ()).FreeRun moves world ∧
      world.shared.content = [0] ∧ world.own false = .returned (.seen []) ∧
      turns moves = [false, true] ∧ world.shared.content.Nodup := by
  let manager := windowManager (fun _ => "Stad.View.Wpf.UI.Windows.MainWindow")
    fun caller : Bool => if caller then Call.register 0 else Call.tryShow ()
  have entered : manager.FreeRun _ _ :=
    .step .initial (show True from trivial) (show manager.step _ true () = some _ from rfl)
  have looked : manager.FreeRun _ _ :=
    .step entered trivial (show manager.step _ false () = some _ from rfl)
  have loaded : manager.FreeRun _ _ :=
    .step looked trivial (show manager.step _ true () = some _ from rfl)
  have registered : manager.FreeRun _ _ :=
    .step loaded trivial (show manager.step _ true () = some _ from rfl)
  have left : manager.FreeRun _ _ :=
    .step registered trivial (show manager.step _ true () = some _ from rfl)
  have kept := windowManager_serialized (fun _ => none) left
  exact ⟨_, _, left, rfl, rfl, rfl, kept.2.1⟩

end Stad.WindowManager
