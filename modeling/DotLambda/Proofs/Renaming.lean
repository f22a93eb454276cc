import DotLambda.Proofs.ParallelSessions
import Mathlib.Logic.Equiv.Basic

/-!
Names in a session may be called differently. Main statement: where one name is called by another that occurs
nowhere, wherever it stands, all numbers and truth values that lines print stay the same. The name of a
function's parameter is such a name if it stands for nothing else in the session; one that does stand for
something else may not be called differently at one place only.
-/

namespace DotLambda

/-- A name that may be given to anything: the words for truth values may not. -/
structure Nameable (id : String) : Prop where
  written : Lexeme id.toList (.sign .identifier id)
  ne_true : id ≠ "true"
  ne_false : id ≠ "false"

theorem Lexeme.unenclosed {chars : List Char} {id : String} (written : Lexeme chars (.sign .identifier id)) :
    '(' ∉ chars :=
  fun member => absurd ((written.of_identifier rfl).2 _ member) (by decide)

/-- The pairing under which two names change places. -/
def Pairing.swap {x z : String} (named : Nameable x) (named' : Nameable z) : Pairing where
  rename := Equiv.swap x z
  names _ := True
  blank := none
  injective := (Equiv.swap x z).injective
  rename_true := Equiv.swap_apply_of_ne_of_ne named.ne_true.symm named'.ne_true.symm
  rename_false := Equiv.swap_apply_of_ne_of_ne named.ne_false.symm named'.ne_false.symm
  unenclosed id moved := by
    by_cases first : id = x
    · exact first ▸ named.written.unenclosed
    by_cases second : id = z
    · exact second ▸ named'.written.unenclosed
    exact absurd (Equiv.swap_apply_of_ne_of_ne first second) moved
  blank_ne_true := Pairing.none_ne_blank "true"
  blank_ne_false := Pairing.none_ne_blank "false"

/-- A token and what it becomes when a name is called by another one, which it is not called yet. Its place in
the line may change. -/
structure Token.Renamed (x z : String) (t t' : Token) : Prop where
  kind_eq : t'.kind = t.kind
  line_eq : t'.line = t.line
  unused : t.kind = .identifier → t.text ≠ z
  content_eq : t'.content = if t.kind = .identifier ∧ t.text = x then .text z else t.content

/-- An item of a scan and what it becomes when a name is called by another one. -/
def Item.Renamed (x z : String) : Item → Item → Prop
  | .token t, .token t' => t.Renamed x z t'
  | .stray c line, .stray c' line' => c' = c ∧ line' = line
  | .overlong digits, .overlong digits' => digits' = digits
  | _, _ => False

/-- A line and what it becomes when a name is called by another one that does not occur in it. -/
def Renamed (x z line line' : String) : Prop :=
  List.Forall₂ (Item.Renamed x z) (Scan.ofText line).items (Scan.ofText line').items

instance (x z : String) (t t' : Token) : Decidable (t.Renamed x z t') :=
  decidable_of_iff (t'.kind = t.kind ∧ t'.line = t.line ∧ (t.kind = .identifier → t.text ≠ z) ∧
      t'.content = if t.kind = .identifier ∧ t.text = x then .text z else t.content)
    ⟨fun ⟨kind, line, unused, content⟩ => ⟨kind, line, unused, content⟩,
      fun ⟨kind, line, unused, content⟩ => ⟨kind, line, unused, content⟩⟩

instance (x z : String) : (item item' : Item) → Decidable (item.Renamed x z item')
  | .token t, .token t' => inferInstanceAs (Decidable (t.Renamed x z t'))
  | .stray c line, .stray c' line' => inferInstanceAs (Decidable (c' = c ∧ line' = line))
  | .overlong digits, .overlong digits' => inferInstanceAs (Decidable (digits' = digits))
  | .token _, .stray _ _ | .token _, .overlong _ | .stray _ _, .token _ | .stray _ _, .overlong _
  | .overlong _, .token _ | .overlong _, .stray _ _ => isFalse id

instance (x z line line' : String) : Decidable (Renamed x z line line') :=
  inferInstanceAs (Decidable (List.Forall₂ _ _ _))

section
variable {x z : String} {named : Nameable x} {named' : Nameable z}

theorem Token.Renamed.alike {t t' : Token} (renamed : t.Renamed x z t') :
    Token.Alike (.swap named named') t t' where
  kind_eq := renamed.kind_eq
  line_eq := renamed.line_eq
  name_eq is := by
    refine ⟨?_, trivial, nofun⟩
    change t'.text = Equiv.swap x z t.text
    by_cases same : t.text = x
    · rw [same, Equiv.swap_apply_left, Token.text, renamed.content_eq, if_pos ⟨is, same⟩]
    · rw [Equiv.swap_apply_of_ne_of_ne same (renamed.unused is), Token.text, renamed.content_eq,
        if_neg fun both => same both.2, Token.text]
  content_eq other := by rw [renamed.content_eq, if_neg fun both => other both.1]

theorem Renamed.alike {line line' : String} (renamed : Renamed x z line line') :
    (Pairing.swap named named').Lines line line' := by
  refine List.Forall₂.imp ?_ renamed
  intro item item' renamed
  cases item with
  | token t =>
    cases item' with
    | token t' => exact .token renamed.alike
    | stray | overlong => exact renamed.elim
  | stray c line =>
    cases item' with
    | stray c' line' =>
      obtain ⟨rfl, rfl⟩ := renamed
      exact .stray c' line'
    | token | overlong => exact renamed.elim
  | overlong digits =>
    cases item' with
    | overlong digits' =>
      obtain rfl := renamed
      exact .overlong digits'
    | token | stray => exact renamed.elim

end

end DotLambda
