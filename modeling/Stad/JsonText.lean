import Mathlib.Data.List.Basic

/-!
The bracket structure of JSON text. A scan follows the letters and knows whether
it is inside a string, how many brackets are open, and whether the last letter
was one that a property name may follow. A text is bracketed when the scan of it
ends where it began without leaving the brackets that were open.
-/

namespace JsonText

abbrev Text := List Char

inductive Kind where
  | blank
  | quote
  | backslash
  | opening
  | closing
  | comma
  | colon
  | plain
  deriving DecidableEq, Repr

def kind (letter : Char) : Kind :=
  if letter = ' ' ∨ letter = '\t' ∨ letter = '\n' ∨ letter = '\r' then .blank
  else if letter = '"' then .quote
  else if letter = '\\' then .backslash
  else if letter = '{' ∨ letter = '[' then .opening
  else if letter = '}' ∨ letter = ']' then .closing
  else if letter = ',' then .comma
  else if letter = ':' then .colon
  else .plain

inductive Mode where
  | outside
  | inside
  | escaped
  deriving DecidableEq, Repr

structure Scan where
  mode : Mode
  depth : Nat
  fresh : Bool
  deriving DecidableEq, Repr

def atDepth (depth : Nat) (fresh : Bool) : Scan := ⟨.outside, depth, fresh⟩

def step (state : Scan) (letter : Char) : Option Scan :=
  match state.mode, kind letter with
  | .escaped, _ => some ⟨.inside, state.depth, false⟩
  | .inside, .backslash => some ⟨.escaped, state.depth, false⟩
  | .inside, .quote => some ⟨.outside, state.depth, false⟩
  | .inside, _ => some ⟨.inside, state.depth, false⟩
  | .outside, .blank => some state
  | .outside, .quote => some ⟨.inside, state.depth, false⟩
  | .outside, .backslash => none
  | .outside, .opening => some ⟨.outside, state.depth + 1, true⟩
  | .outside, .closing => if state.depth = 0 then none else some ⟨.outside, state.depth - 1, false⟩
  | .outside, .comma => if state.depth = 0 then none else some ⟨.outside, state.depth, true⟩
  | .outside, .colon => if state.depth = 0 then none else some ⟨.outside, state.depth, false⟩
  | .outside, .plain => some ⟨.outside, state.depth, false⟩

def scan (state : Scan) (text : Text) : Option Scan := text.foldlM step state

@[simp] theorem scan_nil (state : Scan) : scan state [] = some state := rfl

@[simp] theorem scan_cons (state : Scan) (letter : Char) (text : Text) :
    scan state (letter :: text) = (step state letter).bind fun next => scan next text := by
  simp [scan, Option.bind_eq_bind]

theorem scan_append (state : Scan) (first second : Text) :
    scan state (first ++ second) = (scan state first).bind fun next => scan next second := by
  simp [scan, List.foldlM_append, Option.bind_eq_bind]

theorem scan_append_of {state middle : Scan} {first : Text} (scanned : scan state first = some middle)
    (second : Text) : scan state (first ++ second) = scan middle second := by
  rw [scan_append, scanned, Option.bind_some]

def Bracketed (text : Text) : Prop := scan (atDepth 0 false) text = some (atDepth 0 false)

/-- A property name may only follow a bracket or a comma, and those are inside brackets. -/
def Settled (state : Scan) : Prop := state.fresh = true → 0 < state.depth

theorem Settled.next {state next : Scan} {letter : Char} (settled : Settled state)
    (stepped : step state letter = some next) : Settled next := by
  intro fresh
  unfold step at stepped
  split at stepped
  case h_5 =>
    simp only [Option.some.injEq] at stepped
    subst stepped
    exact settled fresh
  all_goals try split at stepped
  all_goals simp only [reduceCtorEq, Option.some.injEq] at stepped
  all_goals subst stepped
  all_goals simp at fresh ⊢
  all_goals omega

theorem Settled.after {state next : Scan} {text : Text} (settled : Settled state)
    (scanned : scan state text = some next) : Settled next := by
  induction text generalizing state with
  | nil =>
      have same : state = next := by simpa using scanned
      rw [← same]
      exact settled
  | cons letter rest ih =>
      rw [scan_cons] at scanned
      obtain ⟨middle, stepped, later⟩ := Option.bind_eq_some_iff.mp scanned
      exact ih (settled.next stepped) later

def Scan.deeper (state : Scan) (depth : Nat) : Scan := { state with depth := state.depth + depth }

theorem step_deeper {state next : Scan} {letter : Char} (depth : Nat)
    (stepped : step state letter = some next) :
    step (state.deeper depth) letter = some (next.deeper depth) := by
  obtain ⟨mode, level, fresh⟩ := state
  unfold step at stepped ⊢
  cases mode with
  | escaped =>
      simp only [Option.some.injEq] at stepped
      rw [← stepped]
      rfl
  | inside =>
      cases letterKind : kind letter <;> simp only [letterKind, Option.some.injEq] at stepped <;>
        rw [← stepped] <;> rfl
  | outside =>
      cases letterKind : kind letter <;> simp [letterKind, Scan.deeper] at stepped ⊢
      all_goals grind

theorem scan_deeper {state next : Scan} {text : Text} (depth : Nat)
    (scanned : scan state text = some next) :
    scan (state.deeper depth) text = some (next.deeper depth) := by
  induction text generalizing state with
  | nil =>
      have same : state = next := by simpa using scanned
      rw [same, scan_nil]
  | cons letter rest ih =>
      rw [scan_cons] at scanned ⊢
      obtain ⟨middle, stepped, later⟩ := Option.bind_eq_some_iff.mp scanned
      rw [step_deeper depth stepped, Option.bind_some, ih later]

theorem Bracketed.anywhere {text : Text} (bracketed : Bracketed text) (depth : Nat) :
    scan (atDepth depth false) text = some (atDepth depth false) := by
  have moved := scan_deeper depth bracketed
  simpa [Scan.deeper, atDepth] using moved

/-- Inside a bracketed text no property name can be read at the depth at which it begins. -/
theorem Bracketed.no_name {before after : Text} (bracketed : Bracketed (before ++ after))
    {level depth : Nat} (above : level ≤ depth) :
    scan (atDepth depth false) before ≠ some (atDepth level true) := by
  intro named
  rw [Bracketed, scan_append] at bracketed
  obtain ⟨middle, scanned, _⟩ := Option.bind_eq_some_iff.mp bracketed
  have moved := scan_deeper depth scanned
  have same : middle.deeper depth = atDepth level true := by
    have start : (atDepth 0 false).deeper depth = atDepth depth false := by
      simp [Scan.deeper, atDepth]
    rw [start, named] at moved
    exact (Option.some.inj moved).symm
  have settled : Settled middle := Settled.after (by simp [Settled, atDepth]) scanned
  have fresh : middle.fresh = true := congrArg Scan.fresh same
  have sum : middle.depth + depth = level := congrArg Scan.depth same
  have positive := settled fresh
  omega

/-! Strings in a text. -/

def closeString : Bool → Text → Option (Text × Text)
  | _, [] => none
  | true, letter :: rest => (closeString false rest).map fun closed => (letter :: closed.1, closed.2)
  | false, letter :: rest =>
    match kind letter with
    | .quote => some ([], rest)
    | .backslash => (closeString true rest).map fun closed => (letter :: closed.1, closed.2)
    | _ => (closeString false rest).map fun closed => (letter :: closed.1, closed.2)

theorem kind_quote {letter : Char} : kind letter = .quote ↔ letter = '"' := by
  unfold kind
  constructor
  · intro same
    grind
  · rintro rfl
    rfl

def inString (escaped : Bool) (depth : Nat) : Scan :=
  ⟨if escaped then .escaped else .inside, depth, false⟩

theorem closeString_cons {escaped : Bool} {letter : Char} {later raw rest : Text}
    (closed : closeString escaped (letter :: later) = some (raw, rest)) :
    (escaped = false ∧ letter = '"' ∧ raw = [] ∧ later = rest) ∨
      ∃ next tail, closeString next later = some (tail, rest) ∧ raw = letter :: tail ∧
        (∀ depth, step (inString escaped depth) letter = some (inString next depth)) ∧
        (escaped = false → letter ≠ '"' ∧ (next = true ↔ kind letter = .backslash)) := by
  cases escaped with
  | true =>
      simp only [closeString, Option.map_eq_some_iff, Prod.mk.injEq] at closed
      obtain ⟨⟨tail, _⟩, closed, same, rfl⟩ := closed
      exact Or.inr ⟨false, tail, closed, same.symm, fun _ => rfl, by simp⟩
  | false =>
      simp only [closeString] at closed
      split at closed
      · rename_i quoted
        simp only [Option.some.injEq, Prod.mk.injEq] at closed
        exact Or.inl ⟨rfl, kind_quote.mp quoted, closed.1.symm, closed.2⟩
      · rename_i slash
        simp only [Option.map_eq_some_iff, Prod.mk.injEq] at closed
        obtain ⟨⟨tail, _⟩, closed, same, rfl⟩ := closed
        refine Or.inr ⟨true, tail, closed, same.symm, ?_, fun _ => ⟨?_, by simp [slash]⟩⟩
        · intro depth
          simp [inString, step, slash]
        · rintro rfl
          simp [kind] at slash
      · rename_i notQuote notSlash
        simp only [Option.map_eq_some_iff, Prod.mk.injEq] at closed
        obtain ⟨⟨tail, _⟩, closed, same, rfl⟩ := closed
        refine Or.inr ⟨false, tail, closed, same.symm, ?_, fun _ => ⟨?_, nofun, ?_⟩⟩
        · intro depth
          simp [inString, step]
        · exact fun same => notQuote (kind_quote.mpr same)
        · exact fun slash => (notSlash slash).elim

theorem closeString_scan {escaped : Bool} {text raw rest : Text}
    (closed : closeString escaped text = some (raw, rest)) (depth : Nat) :
    text = raw ++ '"' :: rest ∧
      scan (inString escaped depth) (raw ++ ['"']) = some (atDepth depth false) := by
  induction text generalizing escaped raw with
  | nil => simp [closeString] at closed
  | cons letter later ih =>
      rcases closeString_cons closed with ⟨rfl, rfl, rfl, rfl⟩ | ⟨next, tail, ended, rfl, stepped, _⟩
      · exact ⟨rfl, rfl⟩
      · obtain ⟨split, scanned⟩ := ih ended
        refine ⟨by rw [split]; rfl, ?_⟩
        rw [List.cons_append, scan_cons, stepped depth, Option.bind_some, scanned]

theorem step_outside {state next : Scan} {letter : Char} (outside : state.mode = .outside)
    (notQuote : letter ≠ '"') (stepped : step state letter = some next) : next.mode = .outside := by
  have notQuoteKind : kind letter ≠ .quote := fun same => notQuote (kind_quote.mp same)
  unfold step at stepped
  rw [outside] at stepped
  cases letterKind : kind letter <;> simp [letterKind] at stepped notQuoteKind <;> grind

/-- Read as if it stood outside a string, what a string holds has no quote before a backslash. -/
theorem closeString_outside {text raw rest : Text} (closed : closeString false text = some (raw, rest))
    {state : Scan} (outside : state.mode = .outside) :
    (∀ before after, raw = before ++ '"' :: after → scan state before = none) ∧
      ∀ next, scan state raw = some next → next.mode = .outside := by
  induction text generalizing state raw with
  | nil => simp [closeString] at closed
  | cons letter later ih =>
      rcases closeString_cons closed with ⟨_, _, rfl, _⟩ | ⟨next, tail, ended, rfl, _, ordinary⟩
      · simp [outside]
      · obtain ⟨notQuote, slash⟩ := ordinary rfl
        have tailOutside : ∀ middle, step state letter = some middle →
            next = false ∧ middle.mode = .outside := by
          intro middle stepped
          refine ⟨?_, step_outside outside notQuote stepped⟩
          cases next with
          | false => rfl
          | true => simp [step, outside, slash.mp rfl] at stepped
        constructor
        · intro before after split
          cases before with
          | nil => exact absurd (List.cons.inj split).1 notQuote
          | cons head before =>
              obtain ⟨rfl, splitTail⟩ := List.cons.inj split
              rw [scan_cons]
              cases stepped : step state letter with
              | none => rfl
              | some middle =>
                  obtain ⟨rfl, outside'⟩ := tailOutside middle stepped
                  exact (ih ended outside').1 before after splitTail
        · intro last scanned
          rw [scan_cons] at scanned
          obtain ⟨middle, stepped, later⟩ := Option.bind_eq_some_iff.mp scanned
          obtain ⟨rfl, outside'⟩ := tailOutside middle stepped
          exact (ih ended outside').2 last later

theorem closeString_plain {raw : Text} (plain : ∀ letter ∈ raw, kind letter = .plain) (rest : Text) :
    closeString false (raw ++ '"' :: rest) = some (raw, rest) := by
  induction raw with
  | nil => rfl
  | cons letter raw ih =>
      have later := ih fun other listed => plain other (List.mem_cons_of_mem letter listed)
      have ordinary := plain letter List.mem_cons_self
      rw [List.cons_append, closeString, ordinary]
      simp [later]

end JsonText
