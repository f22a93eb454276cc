import DotLambda.Proofs.Abreast
import DotLambda.Proofs.Application
import DotLambda.Proofs.Atomicity
import DotLambda.Proofs.Relevance

/-!
Lines that do not depend on a variable. A line mentions the names of its expression, except where a function takes one
for its parameter, and what concerns these names is all that its value depends on. Main statement: evaluation depends
only on the names that concern what is evaluated, so to assign a variable which concerns no name that a printing line
mentions does not change what the line shows.
-/

namespace DotLambda

open Eval Parse Meaning

open Simplify (Lookup Concerns Coincide)

variable {wanted : String → Prop} {lookup lookup' : Lookup} {l more : Likeness} {w w' after after' : World}
  {s : Settings}

/-! ## Evaluations heard together -/

/-- How two worlds have gone on: each with the variables it had, and saying the same beside the trace. -/
structure World.Attends (w w' after after' : World) : Prop where
  here : after.bindings = w.bindings
  there : after'.bindings = w'.bindings
  said : w'.untraced.output = w.untraced.output → after'.untraced.output = after.untraced.output

theorem World.Attends.trans {last last' : World} (early : Attends w w' after after')
    (late : Attends after after' last last') : Attends w w' last last' where
  here := late.here.trans early.here
  there := late.there.trans early.there
  said same := late.said (early.said same)

namespace Eval

/-- Evaluations that go together, bind no variable, and say the same beside the trace if they succeed. -/
structure Chorus {α β : Type} (lookup lookup' : Lookup) (l : Likeness) (w w' : World) (x : Eval α) (x' : Eval β)
    (good : Likeness → Store → Store → α → β → Prop) : Prop where
  tandem : Tandem lookup lookup' l w w' x x' good
  attends : ∀ {a after b after'}, x w = .ok a after → x' w' = .ok b after' → w.Attends w' after after'

namespace Chorus

variable {α β γ δ : Type} {x : Eval α} {x' : Eval β} {good : Likeness → Store → Store → α → β → Prop}

theorem hushed (tandem : Tandem lookup lookup' l w w' x x' good) (hushed : Hushed x) (hushed' : Hushed x') :
    Chorus lookup lookup' l w w' x x' good where
  tandem := tandem
  attends {a after b after'} ended ended' := by
    obtain ⟨here, quiet⟩ := hushed w a after ended
    obtain ⟨there, quiet'⟩ := hushed' w' b after' ended'
    exact ⟨here, there, fun same => quiet'.trans (same.trans quiet.symm)⟩

theorem pure {a : α} {b : β} (meets : Meets lookup lookup' l w w') (fine : good l w.store w'.store a b) :
    Chorus lookup lookup' l w w' (pure a) (pure b) good :=
  hushed (.pure meets fine) (Silent.pure a).hushed (Silent.pure b).hushed

/-- The same is said to both. -/
theorem emit {e : Event} (meets : Meets lookup lookup' l w w') :
    Chorus lookup lookup' l w w' (Eval.emit e) (Eval.emit e) fun _ _ _ _ _ => True where
  tandem := .emit meets
  attends := by
    rintro _ _ _ _ ⟨⟩ ⟨⟩
    refine ⟨rfl, rfl, fun same => ?_⟩
    simp only [World.untraced, Array.filter_push] at same ⊢
    rw [same]

/-- What uses the variables comes after what leaves them alone. -/
theorem bind {f : α → Eval γ} {f' : β → Eval δ} {best : Likeness → Store → Store → γ → δ → Prop}
    (first : Chorus lookup lookup' l w w' x x' good) (abreast : Abreast wanted lookup lookup' l w w')
    (next : ∀ more after after' a b, Abreast wanted lookup lookup' more after after' → l.Le more →
      good more after.store after'.store a b → Chorus lookup lookup' more after after' (f a) (f' b) best) :
    Chorus lookup lookup' l w w' (x >>= f) (x' >>= f') best := by
  have step {more after after' a b} (ended : x w = .ok a after) (ended' : x' w' = .ok b after')
      (advances : Advances lookup lookup' l w w' more after after') (fine : good more after.store after'.store a b) :
      Chorus lookup lookup' more after after' (f a) (f' b) best :=
    have attends := first.attends ended ended'
    next more after after' a b (abreast.advance advances attends.here attends.there) advances.wider fine
  constructor
  · exact first.tandem.sequence fun _ _ _ _ _ ended ended' advances fine => (step ended ended' advances fine).tandem
  · intro c last d last' finished finished'
    obtain ⟨a, after, ended, rest⟩ := ok_of_bind finished
    obtain ⟨b, after', ended', rest'⟩ := ok_of_bind finished'
    obtain ⟨_, _, more, again, advances, fine⟩ := first.tandem.exists_ok ended
    rw [ended'] at again
    cases again
    exact (first.attends ended ended').trans ((step ended ended' advances fine).attends rest rest')

end Chorus

end Eval

/-! ## Names that lines mention -/

namespace Token

/-- The names that tokens mention. A parameter, which comes right after a lambda, is not one of them. -/
def mentioned (parameter : Bool) : List Token → List String
  | [] => []
  | t :: rest =>
    if t.kind = .identifier ∧ parameter = false then t.text :: mentioned (t.kind = .lambda) rest
    else mentioned (t.kind = .lambda) rest

theorem mem_mentioned_cons {parameter : Bool} {t : Token} {rest : List Token} {id : String}
    (member : id ∈ mentioned (t.kind = .lambda) rest) : id ∈ mentioned parameter (t :: rest) := by
  rw [mentioned]
  split
  · exact List.mem_cons_of_mem _ member
  · exact member

end Token

/-- Whether only an identifier comes right after a lambda, and whether one may come first for this reason. -/
def Symbol.orderly (parameter : Bool) : List Symbol → Bool
  | [] => !parameter
  | .terminal kind :: rest => (!parameter || kind = .identifier) && orderly (kind = .lambda) rest
  | .nonterminal _ :: rest => !parameter && orderly false rest

theorem Rule.orderly_rhs (rule : Rule) : Symbol.orderly false rule.rhs = true := by
  cases rule <;> rfl

namespace Derivation

/-- The names that are looked up along a derivation. -/
def names : {symbols : List Symbol} → Derivation symbols → List String
  | _, nil => []
  | _, read _ _ rest => rest.names
  | _, use rule _ parts rest =>
    (if rule = .name then parts.pieces.map fun p => p.token.text else parts.names) ++ rest.names

/-- All names that are looked up are mentioned. -/
theorem names_mentioned {symbols : List Symbol} (d : Derivation symbols) {parameter : Bool}
    (orderly : Symbol.orderly parameter symbols = true) (behind : List Token) :
    d.names ++ Token.mentioned false behind ⊆ Token.mentioned parameter (d.pieces.map Piece.token ++ behind) := by
  induction d generalizing parameter behind with
  | nil =>
    rw [Symbol.orderly, Bool.not_eq_true'] at orderly
    rw [orderly]
    exact List.Subset.refl _
  | @read kind symbols p is rest ih =>
    rw [Symbol.orderly, Bool.and_eq_true] at orderly
    subst is
    exact fun id member => Token.mem_mentioned_cons (ih orderly.2 behind member)
  | use rule forms parts rest partsIh ih =>
    rw [Symbol.orderly, Bool.and_eq_true, Bool.not_eq_true'] at orderly
    obtain ⟨rfl, orderly⟩ := orderly
    rw [names, pieces, List.map_append, List.append_assoc, List.append_assoc]
    have later := ih orderly behind
    have inner := partsIh rule.orderly_rhs (rest.pieces.map Piece.token ++ behind)
    rw [List.append_subset] at inner ⊢
    refine ⟨?_, fun id member => inner.2 (later member)⟩
    by_cases name : rule = .name
    · subst name
      cases parts with
      | read p is none =>
        cases none
        have is : p.token.kind = .identifier := is
        simp [pieces, Token.mentioned, is]
    · rw [if_neg name]
      exact inner.1

/-! ## Derivations -/

theorem chorus_noise (abreast : Abreast wanted lookup lookup' l w w') (noise : List Noise) :
    Chorus lookup lookup' l w w' (noise.forM (Noise.heard (reading s))) (noise.forM (Noise.heard (reading s)))
      fun _ _ _ _ _ => True := by
  induction noise generalizing l w w' with
  | nil => exact .pure abreast.meets trivial
  | cons first rest ih =>
    have heard : Chorus lookup lookup' l w w' (first.heard (reading s)) (first.heard (reading s))
        fun _ _ _ _ _ => True := by
      cases first with
      | stray character line => exact .emit abreast.meets
      | overlong digits => exact .hushed .throw (Silent.throw _).hushed (Silent.throw _).hushed
    exact heard.bind abreast fun _ _ _ _ _ abreast _ _ => ih abreast

/-- Along a derivation of expressions terms are found that are alike, if the names that are looked up are wanted. -/
theorem chorus_meanings {symbols : List Symbol} (d : Derivation symbols) (free : .nonterminal .statement ∉ symbols)
    (named : ∀ id ∈ d.names, wanted id) (abreast : Abreast wanted lookup lookup' l w w') :
    Chorus lookup lookup' l w w' (d.meanings (reading s)) (d.meanings (reading s)) fun more _ _ row row' =>
      Rows more (· ∈ d.pieces.map Piece.token) symbols row row' := by
  induction d generalizing l w w' with
  | nil => exact .pure abreast.meets ⟨rfl, rfl⟩
  | read p is rest ih =>
    rw [List.mem_cons, not_or] at free
    refine (chorus_noise abreast p.gap).bind abreast fun _ _ _ _ _ abreast _ _ => ?_
    refine (ih free.2 named abreast).bind abreast fun _ _ _ others others' abreast _ rows => ?_
    refine .pure abreast.meets ⟨p.token, others, others', rfl, rfl, List.mem_cons_self, ?_⟩
    exact rows.mono (.refl _) fun _ member => List.mem_cons_of_mem _ member
  | use rule forms parts rest partsIh ih =>
    subst forms
    rw [List.mem_cons, not_or] at free
    rw [names, List.forall_mem_append] at named
    have expression : rule.lhs ≠ .statement := fun same => free.1 (by rw [same])
    have other : rule ≠ .dump := fun same => expression (by rw [same]; rfl)
    have inner : ∀ id ∈ parts.names, wanted id := by
      by_cases name : rule = .name
      · subst name
        cases parts with
        | read p is none =>
          cases none
          exact List.forall_mem_nil _
      · rw [if_neg name] at named
        exact named.1
    have token (name : rule = .name) (t : Token) (member : t ∈ parts.pieces.map Piece.token) : wanted t.text := by
      rw [if_pos name] at named
      obtain ⟨p, found, rfl⟩ := List.mem_map.1 member
      exact named.1 _ (List.mem_map_of_mem found)
    have le : s.Le s := ⟨rfl, Nat.le_refl _⟩
    refine (partsIh (Automaton.dumpless other).1 inner abreast).bind abreast fun _ _ _ row row' abreast _ rows => ?_
    have made := tandem_ofRule le expression abreast rows token
    have hushed (row : List Meaning) : Hushed (ofRule s rule row) :=
      (traces_ofRule rule row).hushed (silent_ofRule rfl expression row)
    refine (Chorus.hushed made (hushed row) (hushed row')).bind abreast fun _ _ _ m m' abreast _ found => ?_
    obtain ⟨t, t', rfl, rfl, alike⟩ := found
    refine (ih free.2 named.2 abreast).bind abreast fun _ _ _ others others' abreast wider rows => ?_
    refine .pure abreast.meets ⟨t, t', others, others', rfl, rfl, alike.mono wider, ?_⟩
    exact rows.mono (.refl _) fun _ member => by
      rw [pieces, List.map_append]
      exact List.mem_append_right _ member

end Derivation

/-! ## Lines -/

/-- To print terms that are alike says the same. -/
theorem chorus_print {t t' : Term} (abreast : Abreast wanted lookup lookup' l w w') (alike : Term.Alike l t t') :
    Chorus lookup lookup' l w w' (print s t) (print s t') fun _ _ _ _ _ => True := by
  have le : s.Le s := ⟨rfl, Nat.le_refl _⟩
  have hushed (t : Term) : Hushed (simplifyNow s t) := traces_simplifyNow.hushed (silent_simplifyNow rfl t)
  refine (Chorus.hushed (tandem_simplifyNow le abreast alike) (hushed t) (hushed t')).bind abreast
    fun _ _ _ result result' abreast _ alike => ?_
  have shown : Chorus lookup lookup' _ _ _ (Eval.examine fun store => result.printed store s.depth)
      (Eval.examine fun store => result'.printed store s.depth) fun _ _ _ text text' => text' = text :=
    .hushed (.examine abreast.meets (alike.printed_near abreast.meets.relates le.depth).agree)
      (Silent.examine _).hushed (Silent.examine _).hushed
  refine shown.bind abreast fun _ _ _ text text' abreast _ same => ?_
  rw [same]
  exact .emit abreast.meets

theorem Command.kind_of_print {first : Token} {rest : List Token}
    (prints : Command.ofTokens (first :: rest) = some .print) : first.kind = .printWord := by
  simp only [Command.ofTokens] at prints
  split at prints
  · assumption
  all_goals cases prints

/-- A line that prints says the same in two worlds, if the names that it mentions are wanted. -/
theorem chorus_evaluation {line : String} (sentence : Sentence ((Scan.ofText line).tokens.map Token.kind))
    (prints : Command.ofTokens (Scan.ofText line).tokens = some .print)
    (named : ∀ id ∈ Token.mentioned false (Scan.ofText line).tokens, wanted id)
    (abreast : Abreast wanted lookup lookup' l w w') :
    Chorus lookup lookup' l w w' (Session.evaluation s line) (Session.evaluation s line) fun _ _ _ _ _ => True := by
  obtain ⟨noise, pieces, split, tokens⟩ : ∃ (noise : List Noise) (pieces : List Piece),
      (Scan.ofText line).items = noise.map Noise.item ++ pieces.flatMap Piece.items ∧
        (Scan.ofText line).tokens = pieces.map Piece.token :=
    ⟨_, _, (Piece.items_split _).symm, (Piece.token_split _).symm⟩
  rw [tokens] at prints named
  rw [tokens, List.map_map] at sentence
  rcases Derivation.exists_statement sentence with
    ⟨p, rfl, is⟩ | ⟨rule, statement, other, parts, rfl, fits⟩
  · cases is.symm.trans (Command.kind_of_print prints)
  · obtain rfl : rule = .print := by
      cases rule with
      | print => rfl
      | dump => exact absurd rfl other
      | assign | append =>
        cases parts with
        | read p is rest => cases is.symm.trans (Command.kind_of_print prints)
      | _ => exact absurd statement (by decide)
    have inner : ∀ id ∈ parts.names, wanted id := fun id member => by
      have mentioned := parts.names_mentioned Rule.print.orderly_rhs [] (List.mem_append_left _ member)
      rw [List.append_nil] at mentioned
      exact named id mentioned
    rw [Session.evaluation, split, parse_statement (reading s) noise statement other parts fits]
    simp only [bind_assoc, pure_bind]
    refine (Derivation.chorus_noise abreast noise).bind abreast fun _ _ _ _ _ abreast _ _ => ?_
    refine (parts.chorus_meanings (Automaton.dumpless other).1 inner abreast).bind abreast
      fun _ _ _ row row' abreast _ rows => ?_
    obtain ⟨_, _, _, rfl, rfl, -, t, t', _, _, rfl, rfl, alike, rfl, rfl⟩ := rows
    have printed : Chorus lookup lookup' _ _ _ (do print s t; pure (Meaning.done none))
        (do print s t'; pure (Meaning.done none)) fun _ _ _ _ _ => True :=
      (chorus_print abreast alike).bind abreast fun _ _ _ _ _ abreast _ _ => .pure abreast.meets trivial
    exact printed.bind abreast fun _ _ _ _ _ abreast _ _ => .pure abreast.meets trivial

/-- What a line shows beside the trace, or how it fails. -/
def Reply.shown (reply : Reply) : Except Error (List Event) :=
  reply.outcome.map fun events => events.filter fun e => !e.isTrace

namespace Session

variable {session other : Session}

theorem shown_run_eq {x x' : Eval (Option Term)} {good : Likeness → Store → Store → Option Term → Option Term → Prop}
    (forth : Chorus lookup lookup' l session.world other.world x x' good)
    (back : Tandem lookup' lookup l.flip other.world session.world x' x good) :
    (other.run x').1.shown = (session.run x).1.shown := by
  unfold Session.run
  rcases forth.tandem.ends back with ⟨_, after, _, after', _, ended, ended', -, -⟩ | ⟨_, _, _, ended, ended'⟩
  · have said := (forth.attends ended ended').said rfl
    rw [show x ⟨session.bindings, session.store, #[]⟩ = _ from ended,
      show x' ⟨other.bindings, other.store, #[]⟩ = _ from ended']
    simp only [Reply.shown, Reply.outcome, Except.map]
    rw [← Array.toList_filter, ← Array.toList_filter]
    exact congrArg (Except.ok ∘ Array.toList) said
  · rw [show x ⟨session.bindings, session.store, #[]⟩ = _ from ended,
      show x' ⟨other.bindings, other.store, #[]⟩ = _ from ended']
    rfl

/-- A line that prints shows the same in a session whose store has grown, if what concerns the names that it mentions
is bound as it was. -/
theorem shown_step_eq (closed : session.Closed) (grown : session.store.Extends other.store) {line : String}
    (sentence : Sentence ((Scan.ofText line).tokens.map Token.kind))
    (prints : Command.ofTokens (Scan.ofText line).tokens = some .print)
    (same : ∀ id, Concerns session.store session.bindings
      ((Token.mentioned false (Scan.ofText line).tokens).map .name) id →
        other.bindings.find? id = session.bindings.find? id) :
    (other.step s line).1.shown = (session.step s line).1.shown := by
  have coincide : Coincide session.world.store other.world.store session.bindings other.bindings
      ((Token.mentioned false (Scan.ofText line).tokens).map .name) := by
    intro id concerns
    rw [same id concerns]
    cases found : session.bindings.find? id with
    | none => exact .none
    | some t =>
      refine .some ⟨session.store.bare.own, ?_, (closed.bindings id t found).bare_owns⟩
      exact closed.store.bare_coherent.grow session.store.bare_continues
        (session.store.bare_continues.trans grown.continues)
  have meets := coincide.meets (congrArg Array.size grown.terms_eq)
  have named (id : String) (member : id ∈ Token.mentioned false (Scan.ofText line).tokens) :
      Concerns session.store session.bindings ((Token.mentioned false (Scan.ofText line).tokens).map .name) id :=
    .root (List.mem_map_of_mem member) (.self _)
  exact shown_run_eq (chorus_evaluation sentence prints (fun _ is => is) ⟨meets, rfl, rfl, named⟩)
    (chorus_evaluation sentence prints (fun _ is => is) ⟨meets.flip, rfl, rfl, named⟩).tandem

/-- A line that assigns a variable leaves the other variables and all lists as they were, whether it succeeds or
fails. -/
theorem spares_assigning (closed : session.Closed) {line x : String}
    (sentence : Sentence ((Scan.ofText line).tokens.map Token.kind))
    (assigns : Command.ofTokens (Scan.ofText line).tokens = some (.assign x)) :
    session.store.Extends (session.step s line).2.store ∧
      ∀ id, id ≠ x → (session.step s line).2.bindings.find? id = session.bindings.find? id := by
  have ends := closed.step_effects s sentence
  cases ended : (session.step s line).1.result with
  | error e =>
    have kept := ends.1 e ended
    exact ⟨kept.store, fun id _ => by rw [kept.bindings_eq]⟩
  | ok result =>
    obtain ⟨command, given, effect⟩ := ends.2 result ended
    rw [assigns] at given
    cases given
    exact ⟨effect.2.2, effect.2.1⟩

end Session

/-- Simplification and replacement come out alike under lookups that agree on the names which concern their terms; and
a line that prints shows the same before and after an assignment to a variable that does not concern what the line
mentions. -/
theorem evaluation_depends_on_concerns :
    (∀ (s : Settings) (depth : Nat) (w : World) (lookup lookup' : Lookup) (v : Term), w.store.Sound → v.Of w.store →
      Coincide w.store w.store lookup lookup' [v] →
        Concur (simplify s lookup depth v w) (simplify s lookup' depth v w)) ∧
    (∀ (s : Settings) (depth : Nat) (w : World) (lookup lookup' : Lookup) (x : String) (n v : Term), w.store.Sound →
      v.Of w.store → n.Of w.store → n.isArgument = true → Coincide w.store w.store lookup lookup' [v, n] →
        Concur (replace s lookup depth (.text x) n v w) (replace s lookup' depth (.text x) n v w)) ∧
    ∀ (session : Session) (s s' : Settings) (assigning printing x : String), session.Reachable →
      Sentence ((Scan.ofText assigning).tokens.map Token.kind) →
      Command.ofTokens (Scan.ofText assigning).tokens = some (.assign x) →
      Sentence ((Scan.ofText printing).tokens.map Token.kind) →
      Command.ofTokens (Scan.ofText printing).tokens = some .print →
      ¬ Concerns session.store session.bindings
        ((Token.mentioned false (Scan.ofText printing).tokens).map .name) x →
        ((session.step s assigning).2.step s' printing).1.shown = (session.step s' printing).1.shown := by
  refine ⟨fun s depth w lookup lookup' v sound known coincide => coincide.concur_simplify sound known,
    fun s depth w lookup lookup' x n v sound known given argument coincide =>
      coincide.concur_replace sound known given argument,
    fun session s s' assigning printing x reachable sentence assigns sentence' prints unconcerned => ?_⟩
  have closed := reachable.closed
  obtain ⟨grown, same⟩ := @Session.spares_assigning s _ closed _ _ sentence assigns
  refine Session.shown_step_eq closed grown sentence' prints fun id concerns => same id ?_
  rintro rfl
  exact unconcerned concerns

/-- A name that stands for another one, beside which a third is bound or not; and a parameter, which is not mentioned by
the function that takes it. -/
theorem evaluation_depends_on_concerns_of_parameter :
    (let lookup : Lookup := [("a", .name "c"), ("c", .int (.int 1))]
      let w : World := ⟨[], .empty, #[]⟩
      let s : Settings := ⟨false, 9⟩
      Concur (simplify s lookup 9 (.name "a") w) (simplify s (("b", .int (.int 2)) :: lookup) 9 (.name "a") w) ∧
        Concur (replace s lookup 9 (.text "x") (.int (.int 7)) (.name "a") w)
          (replace s (("b", .int (.int 2)) :: lookup) 9 (.text "x") (.int (.int 7)) (.name "a") w)) ∧
    ((Session.fresh.step ⟨false, Session.usualDepth⟩ "x := 5").2.step ⟨false, Session.usualDepth⟩
        "print \\ x => y").1.shown =
      (Session.fresh.step ⟨false, Session.usualDepth⟩ "print \\ x => y").1.shown := by
  obtain ⟨simplifies, replaces, shows⟩ := evaluation_depends_on_concerns
  -- Numbers lead to no name, and a name to itself only.
  have ofNumber {store : Store} {n : Int} {id : String} : ¬ store.Leads (.int (.int n)) (.name id) := by
    rintro (_ | member | refers)
    · cases member
    · cases refers
  have ofName {store : Store} {id other : String} (leads : store.Leads (.name other) (.name id)) : id = other := by
    cases leads with
    | self => rfl
    | part member => cases member
    | referred refers => cases refers
  have sound : Store.empty.Sound := by
    refine ⟨fun _ _ member => ?_, fun _ old => absurd old (Nat.not_lt_zero _)⟩
    cases member
  have known {t : Term} (cells : t.cells = []) (plain : t.references = []) : t.Of .empty :=
    ⟨by rw [cells]; exact List.forall_mem_nil _, by rw [plain]; exact List.forall_mem_nil _⟩
  have coincide {roots : List Term} (rooted : ∀ t ∈ roots, t = .name "a" ∨ t = .int (.int 7)) :
      Coincide .empty .empty [("a", .name "c"), ("c", .int (.int 1))]
        [("b", .int (.int 2)), ("a", .name "c"), ("c", .int (.int 1))] roots := by
    intro id concerns
    have named : id = "a" ∨ id = "c" := by
      induction concerns with
      | root member stands =>
        rcases rooted _ member with rfl | rfl
        · exact .inl (ofName stands)
        · exact absurd stands ofNumber
      | onward _ bound stands ih =>
        rcases ih with rfl | rfl
        · cases bound
          exact .inr (ofName stands)
        · cases bound
          exact absurd stands ofNumber
    rcases named with rfl | rfl
    · exact .some ((known rfl rfl).equal_self sound)
    · exact .some ((known rfl rfl).equal_self sound)
  refine ⟨⟨?_, ?_⟩, ?_⟩
  · exact simplifies _ _ _ _ _ _ sound (known rfl rfl) (coincide (by simp))
  · exact replaces _ _ _ _ _ _ _ _ sound (known rfl rfl) (known rfl rfl) rfl (coincide (by simp))
  · have kinds : (Scan.ofText "x := 5").tokens.map Token.kind = [.identifier, .assign, .number] := by decide +kernel
    have kinds' : (Scan.ofText "print \\ x => y").tokens.map Token.kind =
        [.printWord, .lambda, .identifier, .arrow, .identifier] := by decide +kernel
    have mentioned : Token.mentioned false (Scan.ofText "print \\ x => y").tokens = ["y"] := by decide +kernel
    refine shows _ _ _ _ _ "x" .fresh ?_ rfl ?_ rfl ?_
    · rw [kinds]
      exact .head (.step [] .assign []) (.head (.step [_, _] .lastInChain []) (.head (.step [_, _] .termExpr [])
        (.head (.step [_, _] .factorTerm []) (.head (.step [_, _] .number []) .refl))))
    · rw [kinds']
      exact .head (.step [] .print []) (.head (.step [_] .lastInChain []) (.head (.step [_] .function [])
        (.head (.step [_, _, _, _] .lastInChain []) (.head (.step [_, _, _, _] .termExpr [])
          (.head (.step [_, _, _, _] .factorTerm []) (.head (.step [_, _, _, _] .name []) .refl))))))
    · rw [mentioned]
      intro concerns
      generalize same : "x" = id at concerns
      cases concerns with
      | root member stands =>
        rw [List.map_singleton, List.mem_singleton] at member
        subst member
        exact absurd (same.trans (ofName stands)) (by decide)
      | onward _ bound => cases bound

end DotLambda
