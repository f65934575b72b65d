import Stad.AnnotationCore
import Stad.WordSearch

/-!
The full names of runtime types. The name of a constructed type spells out its
arguments at every depth, each with the display name of its assembly, and a type
that depends on a type parameter has none.
-/

namespace Stad

open WordSearch

/-- A declared type. The path lists the types around it and itself, each with the
number of its own type parameters. -/
structure Declaration where
  assembly : String
  nameSpace : Option String
  path : List (String × Nat)
  deriving DecidableEq, Repr

def metadataName (part : String × Nat) : String :=
  if part.2 = 0 then part.1 else part.1 ++ "`" ++ toString part.2

def Declaration.fullName (declaration : Declaration) : String :=
  match declaration.nameSpace with
  | none => "+".intercalate (declaration.path.map metadataName)
  | some nameSpace => nameSpace ++ "." ++ "+".intercalate (declaration.path.map metadataName)

/-- A generic type definition has no arguments. -/
inductive RuntimeType where
  | parameter (name : String)
  | declared (declaration : Declaration) (arguments : List RuntimeType)
  | array (element : RuntimeType) (rank : Nat)
  | pointer (element : RuntimeType)

namespace RuntimeType

def assembly : RuntimeType → String
  | parameter _ => ""
  | declared declaration _ => declaration.assembly
  | array element _ => element.assembly
  | pointer element => element.assembly

def arraySuffix (rank : Nat) : String :=
  "[" ++ String.ofList (List.replicate (rank - 1) ',') ++ "]"

mutual

def fullName : RuntimeType → Option String
  | parameter _ => none
  | declared declaration arguments =>
    if arguments.isEmpty then some declaration.fullName
    else (qualifiedNames arguments).map fun names =>
      declaration.fullName ++ "[[" ++ "],[".intercalate names ++ "]]"
  | array element rank => element.fullName.map fun name => name ++ arraySuffix rank
  | pointer element => element.fullName.map fun name => name ++ "*"

def qualifiedNames : List RuntimeType → Option (List String)
  | [] => some []
  | first :: rest =>
    match first.fullName, qualifiedNames rest with
    | some name, some names => some ((name ++ ", " ++ first.assembly) :: names)
    | _, _ => none

end

/-- The word stands somewhere in what the full name spells out. -/
inductive Mentions (word : String) : RuntimeType → Prop
  | nameSpace {declaration arguments nameSpace} : declaration.nameSpace = some nameSpace →
      contains nameSpace word = true → Mentions word (declared declaration arguments)
  | name {declaration arguments part} : part ∈ declaration.path →
      contains part.1 word = true → Mentions word (declared declaration arguments)
  | argument {declaration arguments argument} : argument ∈ arguments → Mentions word argument →
      Mentions word (declared declaration arguments)
  | argumentAssembly {declaration arguments argument} : argument ∈ arguments →
      contains argument.assembly word = true → Mentions word (declared declaration arguments)
  | element {element rank} : Mentions word element → Mentions word (array element rank)
  | target {element} : Mentions word element → Mentions word (pointer element)

def Alphabetic (word : String) : Prop := Word (fun letter => letter.isAlpha = true) word.toList

section Search

variable {word : String}

theorem contains_iff {text part : String} :
    contains text part = true ↔ part.toList <:+: text.toList := by
  simp [contains]

theorem digit_not_alpha {letter : Char} (digit : letter.isDigit = true) :
    ¬letter.isAlpha = true := by
  have below := (Char.isDigit_iff_toNat.mp digit).2
  intro alpha
  rcases Bool.or_eq_true_iff.mp alpha with upper | lower
  · have above : 'A'.toNat ≤ letter.toNat :=
      UInt32.le_iff_toNat_le.mp (of_decide_eq_true upper).1
    have apart : '9'.toNat < 'A'.toNat := by decide
    omega
  · have above : 'a'.toNat ≤ letter.toNat :=
      UInt32.le_iff_toNat_le.mp (of_decide_eq_true (Bool.and_eq_true_iff.mp lower).1)
    have apart : '9'.toNat < 'a'.toNat := by decide
    omega

theorem arity_separates (arity : Nat) :
    Separates (fun letter => letter.isAlpha = true) ("`".toList ++ (toString arity).toList) := by
  have marks : ∀ letter ∈ "`".toList, ¬letter.isAlpha = true := Separates.of_all rfl
  intro letter listed
  rcases List.mem_append.mp listed with mark | digit
  · exact marks letter mark
  · have inDigits : letter ∈ Nat.toDigits 10 arity := by simpa using digit
    exact digit_not_alpha (Nat.isDigit_of_mem_toDigits (by omega) (by omega) inDigits)

theorem contains_metadataName (alphabetic : Alphabetic word) (part : String × Nat) :
    contains (metadataName part) word = true ↔ contains part.1 word = true := by
  unfold metadataName
  split
  · rfl
  · rw [contains_iff, String.append_assoc, String.toList_append, String.toList_append,
      Word.infix_append_separator alphabetic (arity_separates part.2), contains_iff]

theorem contains_intercalate (alphabetic : Alphabetic word) {separator : String}
    (nonempty : separator.toList ≠ [])
    (separates : Separates (fun letter => letter.isAlpha = true) separator.toList)
    (parts : List String) :
    contains (separator.intercalate parts) word = true ↔
      ∃ part ∈ parts, contains part word = true := by
  rw [contains_iff, String.toList_intercalate,
    Word.infix_intercalate alphabetic nonempty separates]
  simp [contains_iff]

theorem contains_separated (alphabetic : Alphabetic word) {separator : String}
    (nonempty : separator.toList ≠ [])
    (separates : Separates (fun letter => letter.isAlpha = true) separator.toList)
    (left right : String) :
    contains (left ++ separator ++ right) word = true ↔
      contains left word = true ∨ contains right word = true := by
  rw [contains_iff, String.append_assoc, String.toList_append, String.toList_append,
    Word.infix_separated alphabetic nonempty separates, contains_iff, contains_iff]

theorem contains_append_separator (alphabetic : Alphabetic word) {separator : String}
    (separates : Separates (fun letter => letter.isAlpha = true) separator.toList)
    (left : String) : contains (left ++ separator) word = true ↔ contains left word = true := by
  rw [contains_iff, String.toList_append, Word.infix_append_separator alphabetic separates,
    contains_iff]

theorem contains_declaration (alphabetic : Alphabetic word) (declaration : Declaration) :
    contains declaration.fullName word = true ↔
      (∃ nameSpace, declaration.nameSpace = some nameSpace ∧ contains nameSpace word = true) ∨
        ∃ part ∈ declaration.path, contains part.1 word = true := by
  have nested : contains ("+".intercalate (declaration.path.map metadataName)) word = true ↔
      ∃ part ∈ declaration.path, contains part.1 word = true := by
    rw [contains_intercalate alphabetic (by decide) (Separates.of_all rfl)]
    simp [contains_metadataName alphabetic]
  unfold Declaration.fullName
  cases declaration.nameSpace with
  | none => simpa using nested
  | some nameSpace =>
      simp only
      rw [contains_separated alphabetic (by decide) (Separates.of_all rfl), nested]
      simp

theorem arraySuffix_separates (rank : Nat) :
    Separates (fun letter => letter.isAlpha = true) (arraySuffix rank).toList := by
  intro letter listed
  have marks : letter = '[' ∨ letter = ',' ∨ letter = ']' := by
    simp only [arraySuffix, String.toList_append, String.toList_ofList, List.mem_append,
      List.mem_replicate] at listed
    rcases listed with (bracket | ⟨_, comma⟩) | bracket
    · exact Or.inl (by simpa using bracket)
    · exact Or.inr (Or.inl comma)
    · exact Or.inr (Or.inr (by simpa using bracket))
  rcases marks with same | same | same <;> subst same <;> decide

theorem mentions_declared {declaration : Declaration} {arguments : List RuntimeType} :
    Mentions word (declared declaration arguments) ↔
      ((∃ nameSpace, declaration.nameSpace = some nameSpace ∧ contains nameSpace word = true) ∨
        ∃ part ∈ declaration.path, contains part.1 word = true) ∨
      ∃ argument ∈ arguments, Mentions word argument ∨ contains argument.assembly word = true := by
  constructor
  · intro mentions
    cases mentions with
    | nameSpace same found => exact Or.inl (Or.inl ⟨_, same, found⟩)
    | name listed found => exact Or.inl (Or.inr ⟨_, listed, found⟩)
    | argument listed found => exact Or.inr ⟨_, listed, Or.inl found⟩
    | argumentAssembly listed found => exact Or.inr ⟨_, listed, Or.inr found⟩
  · rintro ((⟨nameSpace, same, found⟩ | ⟨part, listed, found⟩) | ⟨argument, listed, found | found⟩)
    · exact Mentions.nameSpace same found
    · exact Mentions.name listed found
    · exact Mentions.argument listed found
    · exact Mentions.argumentAssembly listed found

mutual

/-- A word is found in a full name exactly when one of the names it spells out has it. -/
theorem contains_fullName_iff (alphabetic : Alphabetic word) (type : RuntimeType) {name : String}
    (named : type.fullName = some name) : contains name word = true ↔ Mentions word type := by
  cases type with
  | parameter _ => simp [fullName] at named
  | declared declaration arguments =>
      rw [mentions_declared, ← contains_declaration alphabetic]
      cases arguments with
      | nil =>
          simp only [fullName, List.isEmpty_nil, if_true, Option.some.injEq] at named
          simp [named]
      | cons first rest =>
          simp only [fullName, List.isEmpty_cons, Bool.false_eq_true, if_false,
            Option.map_eq_some_iff] at named
          obtain ⟨names, qualified, same⟩ := named
          rw [← same, contains_append_separator alphabetic (Separates.of_all rfl),
            contains_separated alphabetic (by decide) (Separates.of_all rfl),
            contains_intercalate alphabetic (by decide) (Separates.of_all rfl),
            contains_qualifiedNames_iff alphabetic (first :: rest) qualified]
  | array element rank =>
      simp only [fullName, Option.map_eq_some_iff] at named
      obtain ⟨inner, innerNamed, same⟩ := named
      rw [← same, contains_append_separator alphabetic (arraySuffix_separates rank),
        contains_fullName_iff alphabetic element innerNamed]
      exact ⟨Mentions.element, fun mentions => by cases mentions; assumption⟩
  | pointer element =>
      simp only [fullName, Option.map_eq_some_iff] at named
      obtain ⟨inner, innerNamed, same⟩ := named
      rw [← same, contains_append_separator alphabetic (Separates.of_all rfl),
        contains_fullName_iff alphabetic element innerNamed]
      exact ⟨Mentions.target, fun mentions => by cases mentions; assumption⟩

theorem contains_qualifiedNames_iff (alphabetic : Alphabetic word) (types : List RuntimeType)
    {names : List String} (qualified : qualifiedNames types = some names) :
    (∃ name ∈ names, contains name word = true) ↔
      ∃ type ∈ types, Mentions word type ∨ contains type.assembly word = true := by
  cases types with
  | nil =>
      simp only [qualifiedNames, Option.some.injEq] at qualified
      simp [← qualified]
  | cons first rest =>
      simp only [qualifiedNames] at qualified
      split at qualified
      · rename_i name names' named qualifiedRest
        simp only [Option.some.injEq] at qualified
        rw [← qualified, List.exists_mem_cons_iff, List.exists_mem_cons_iff,
          contains_separated alphabetic (by decide) (Separates.of_all rfl),
          contains_fullName_iff alphabetic first named,
          contains_qualifiedNames_iff alphabetic rest qualifiedRest]
      · cases qualified

end

end Search

end RuntimeType

end Stad
