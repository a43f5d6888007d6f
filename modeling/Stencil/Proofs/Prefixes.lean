import Mathlib
import Stencil.Proofs.Lexemes
import Stencil.Proofs.Recognition
import Stencil.Proofs.Results
import Stencil.Proofs.Stacks

/-!
# Where a text stops being an expression

A text that is no expression is at fault at its first token that, after the tokens before it, no
expression goes on with; the end of the text is a token as well. The point of a path at which a text
ends is blamed itself.
-/
namespace Stencil

namespace Parser

open Goal

variable {σ σ' : List Goal} {ts : List Token}

theorem operatorAt_dot (level : Nat) : operatorAt level (.symbol .dot) = none := by
  match level with
  | 0 | 1 | 2 | 3 | 4 | 5 | n + 6 => rfl

theorem take?_dot {g : Goal} {gs : List Goal} (h : g.take? (.symbol .dot) = some gs) :
    g = steps ∧ gs = [.member, steps] := by
  cases g with
  | steps =>
    cases h
    exact ⟨rfl, rfl⟩
  | more level =>
    obtain ⟨op, hop, -⟩ := Option.map_eq_some_iff.mp h
    rw [operatorAt_dot] at hop
    cases hop
  | argument named => cases named <;> cases h
  | _ => cases h

/-- After the point of a path something has to follow. -/
theorem step_dot (h : step (.symbol .dot) σ = some σ') : σ'.all mayEnd = false := by
  induction σ with
  | nil => cases h
  | cons g σ ih =>
    unfold step at h
    split at h
    · rename_i gs htake
      obtain ⟨rfl, rfl⟩ := take?_dot htake
      cases h
      rfl
    · split at h
      · exact ih h
      · cases h

/-- The point of a path that tokens end with. -/
def pointAtEnd? (ts : List Token) : Option Token :=
  ts.getLast?.filter fun t => t.kind.isSymbol .dot

theorem walk_append (σ : List Goal) (kinds later : List TokenKind) :
    walk σ (kinds ++ later) = (walk σ kinds).bind (walk · later) := by
  induction kinds generalizing σ with
  | nil => rfl
  | cons kind kinds ih =>
    rw [List.cons_append, walk, walk, Option.bind_assoc]
    exact congrArg _ (funext ih)

theorem scan_eq_ok : scan σ ts = .ok () ↔ Completes σ (ts.map Token.kind) := by
  induction ts generalizing σ with
  | nil =>
    rw [scan]
    constructor
    · intro h
      split at h
      · exact ⟨σ, rfl, ‹_›⟩
      · cases h
    · rintro ⟨_, ⟨⟩, hend⟩
      rw [hend]
      rfl
  | cons t ts ih =>
    rw [scan]
    cases hstep : step t.kind σ with
    | none =>
      constructor
      · intro h
        cases h
      · rintro ⟨σ', hwalk, -⟩
        rw [List.map_cons, walk, hstep] at hwalk
        cases hwalk
    | some σ₁ =>
      have hcompletes :
          Completes σ ((t :: ts).map Token.kind) ↔ Completes σ₁ (ts.map Token.kind) := by
        rw [Completes, Completes, List.map_cons, walk, hstep]
        rfl
      rw [hcompletes, ← ih]
      dsimp only
      split
      · rename_i hpoint
        obtain ⟨hdot, hts⟩ := (Bool.and_eq_true _ _).mp hpoint
        rw [isSymbol_eq_true.mp hdot] at hstep
        rw [List.isEmpty_iff.mp hts, scan, step_dot hstep]
        simp
      · rfl

theorem pointAtEnd?_cons {t : Token} (h : (t.kind.isSymbol .dot && ts.isEmpty) = false) :
    pointAtEnd? (t :: ts) = pointAtEnd? ts := by
  cases ts with
  | nil =>
    have hkind : t.kind.isSymbol .dot = false := by simpa using h
    simp [pointAtEnd?, Option.filter, hkind]
  | cons t' ts => simp [pointAtEnd?, List.getLast?_cons_cons]

/-- A text fails at a token that no goal takes, or at its end. -/
theorem scan_error {fault : List Token} (h : scan σ ts = .error fault) :
    (∃ before t later σ', ts = before ++ t :: later ∧ walk σ (before.map Token.kind) = some σ' ∧
      step t.kind σ' = none ∧ fault = t :: later) ∨
    ∃ σ', walk σ (ts.map Token.kind) = some σ' ∧ σ'.all mayEnd = false ∧
      fault = (pointAtEnd? ts).toList := by
  induction ts generalizing σ with
  | nil =>
    rw [scan] at h
    split at h
    · cases h
    · rename_i hend
      cases h
      exact .inr ⟨σ, rfl, Bool.eq_false_iff.mpr hend, rfl⟩
  | cons t ts ih =>
    rw [scan] at h
    cases hstep : step t.kind σ with
    | none =>
      rw [hstep] at h
      cases h
      exact .inl ⟨[], t, ts, σ, rfl, rfl, hstep, rfl⟩
    | some σ₁ =>
      rw [hstep] at h
      dsimp only at h
      have hwalk (later : List TokenKind) : walk σ (t.kind :: later) = walk σ₁ later := by
        rw [walk, hstep]
        rfl
      cases hpoint : t.kind.isSymbol .dot && ts.isEmpty with
      | true =>
        obtain ⟨hdot, hts⟩ := (Bool.and_eq_true _ _).mp hpoint
        obtain rfl := List.isEmpty_iff.mp hts
        rw [hpoint] at h
        cases h
        refine .inr ⟨σ₁, hwalk [], ?_, ?_⟩
        · rw [isSymbol_eq_true.mp hdot] at hstep
          exact step_dot hstep
        · simp [pointAtEnd?, Option.filter, hdot]
      | false =>
        rw [hpoint] at h
        rcases ih h with
          ⟨before, t', later, σ', rfl, hbefore, hnone, hfault⟩ | ⟨σ', hend, hopen, hfault⟩
        · exact .inl ⟨t :: before, t', later, σ', rfl, (hwalk _).trans hbefore, hnone, hfault⟩
        · exact .inr ⟨σ', (hwalk _).trans hend, hopen, by rw [hfault, pointAtEnd?_cons hpoint]⟩

/-- The kinds of tokens, the end of the text among them, that are accepted as an expression. -/
def Accepted (kinds : List TokenKind) : Prop :=
  ∃ (tokens : List Token) (found : Expr × List Token), kinds = tokens.map Token.kind ++ [.eof] ∧
    (∀ t ∈ tokens, t.kind ≠ .eof) ∧ whole (pipeline (nested tokens.length)) tokens = .ok found

/-- What an accepted sequence of tokens begins with. -/
def BeginsAccepted (kinds : List TokenKind) : Prop := ∃ later, Accepted (kinds ++ later)

theorem pipeline_nested_discharges (n : Nat) :
    Discharges n (pipeline (nested n)) (goals .expression) :=
  pipeline_discharges (nested_discharges n)

theorem whole_isOk {α : Type} {p : Parser α} {gs : List Goal} (h : Discharges ts.length p gs) :
    (∃ found, whole p ts = .ok found) ↔ Completes gs (ts.map Token.kind) := by
  have haccords := whole_accords h (Nat.le_refl _)
  rw [← scan_eq_ok]
  cases hwhole : whole p ts with
  | error s =>
    rw [hwhole] at haccords
    obtain ⟨fault, hfault, -⟩ := haccords
    simp [hfault]
  | ok found =>
    rw [hwhole] at haccords
    have hscan : scan gs ts = .ok () := haccords
    simp [hscan]

theorem whole_pipeline_isOk : (∃ found, whole (pipeline (nested ts.length)) ts = .ok found) ↔
    Completes (goals .expression) (ts.map Token.kind) :=
  whole_isOk (pipeline_nested_discharges ts.length)

theorem completes_of_accepted {kinds : List TokenKind} (h : Accepted (kinds ++ [.eof])) :
    Completes (goals .expression) kinds := by
  obtain ⟨tokens, found, hkinds, -, hwhole⟩ := h
  obtain ⟨rfl, -⟩ := List.append_inj' hkinds rfl
  exact whole_pipeline_isOk.mp ⟨found, hwhole⟩

theorem accepted_of_completes {kinds : List TokenKind} (heof : ∀ kind ∈ kinds, kind ≠ .eof)
    (h : Completes (goals .expression) kinds) : Accepted (kinds ++ [.eof]) := by
  have hkinds : (kinds.map fun kind => (⟨kind, ⟨0, 0⟩⟩ : Token)).map Token.kind = kinds := by
    rw [List.map_map]
    exact List.map_id kinds
  have hcompletes := hkinds.symm ▸ h
  obtain ⟨found, hwhole⟩ := whole_pipeline_isOk.mpr hcompletes
  refine ⟨_, found, by rw [hkinds], fun t ht => ?_, hwhole⟩
  exact heof t.kind (hkinds ▸ List.mem_map_of_mem ht)

theorem settled_goals (production : Production) : Settled (goals production) := by
  cases production <;> decide

/-- Tokens that the goals take begin an expression. -/
theorem beginsAccepted_of_walk {kinds : List TokenKind} (heof : ∀ kind ∈ kinds, kind ≠ .eof)
    (h : walk (goals .expression) kinds = some σ) : BeginsAccepted kinds := by
  have hsettled : Settled σ := (settled_goals .expression).walk h
  obtain ⟨later, ⟨σ', hwalk, hend⟩, hlater, -⟩ := exists_supplies hsettled
  have hcompletes : Completes (goals .expression) (kinds ++ later) := by
    refine ⟨σ', ?_, hend⟩
    rw [walk_append, h]
    exact hwalk
  have heof' : ∀ kind ∈ kinds ++ later, kind ≠ .eof :=
    List.forall_mem_append.mpr ⟨heof, hlater⟩
  refine ⟨later ++ [.eof], ?_⟩
  rw [← List.append_assoc]
  exact accepted_of_completes heof' hcompletes

/-- A token that no goal takes does not go on with an expression. -/
theorem not_beginsAccepted_of_step {kinds : List TokenKind} {kind : TokenKind}
    (heof : kind ≠ .eof) (h : walk (goals .expression) kinds = some σ)
    (hstep : step kind σ = none) : ¬ BeginsAccepted (kinds ++ [kind]) := by
  rintro ⟨later, haccepted⟩
  rcases List.eq_nil_or_concat later with rfl | ⟨later, last, rfl⟩
  · obtain ⟨tokens, found, hkinds, -⟩ := haccepted
    rw [List.append_nil] at hkinds
    exact heof (List.singleton_injective (List.append_inj' hkinds rfl).2)
  · obtain ⟨tokens, found, hkinds, -, hwhole⟩ := haccepted
    rw [List.concat_eq_append, ← List.append_assoc] at hkinds
    obtain ⟨hkinds, -⟩ := List.append_inj' hkinds rfl
    obtain ⟨σ', hwalk, -⟩ := whole_pipeline_isOk.mp ⟨found, hwhole⟩
    rw [← hkinds, walk_append, walk_append, h] at hwalk
    simp [walk, hstep] at hwalk

/-- What is not to end yet does not end. -/
theorem not_beginsAccepted_eof {kinds : List TokenKind}
    (h : walk (goals .expression) kinds = some σ) (hend : σ.all mayEnd = false) :
    ¬ BeginsAccepted (kinds ++ [.eof]) := by
  rintro ⟨later, haccepted⟩
  rcases List.eq_nil_or_concat later with rfl | ⟨later, last, rfl⟩
  · rw [List.append_nil] at haccepted
    obtain ⟨σ', hwalk, hend'⟩ := completes_of_accepted haccepted
    rw [h] at hwalk
    cases hwalk
    rw [hend] at hend'
    cases hend'
  · obtain ⟨tokens, found, hkinds, htokens, -⟩ := haccepted
    rw [List.concat_eq_append, ← List.append_assoc] at hkinds
    obtain ⟨hkinds, -⟩ := List.append_inj' hkinds rfl
    have hmem : .eof ∈ tokens.map Token.kind := by
      rw [← hkinds]
      simp
    obtain ⟨t, ht, hkind⟩ := List.mem_map.mp hmem
    exact htokens t ht hkind

/-- The token that is blamed where a text stops being an expression before `t`. -/
def blamed (before : List Token) (t : Token) : Token :=
  match t.kind with
  | .eof => (pointAtEnd? before).getD t
  | _ => t

end Parser

theorem Stuck.error_span (stuck : Stuck) (size : Nat) : (stuck.error size).span
    = (stuck.rest.head?.getD ⟨.eof, ⟨size, size⟩⟩).span := by
  rw [Stuck.error]
  cases stuck.complaint <;> rfl

theorem Stuck.complaint_of_fault {stuck : Stuck} {size : Nat}
    (h : (stuck.error size).fault ≠ .positionalAfterNamed) :
    stuck.complaint ≠ .positionalAfterNamed := by
  intro hcomplaint
  rw [Stuck.error, hcomplaint] at h
  exact h rfl

namespace Parser

theorem blamed_of_ne_eof {before : List Token} {t : Token} (h : t.kind ≠ .eof) :
    blamed before t = t := by
  unfold blamed
  split
  · rename_i ht
    exact absurd ht h
  · rfl

theorem read_eq_ok {α : Type} {p : Parser Expr → Parser α} {s : String} {a : α} :
    read p s = .ok a ↔ ∃ tokens rest, Token.lex s = .ok tokens ∧
    whole (p (nested tokens.length)) tokens = .ok (a, rest) := by
  rw [read, Stencil.bind_eq_ok]
  refine exists_congr fun tokens => ?_
  rw [exists_and_left]
  refine and_congr_right fun _ => ?_
  cases whole (p (nested tokens.length)) tokens with
  | error stuck => simp [throw, throwThe, MonadExceptOf.throw]
  | ok found =>
    obtain ⟨b, rest⟩ := found
    simp [pure, Except.pure]

theorem read_eq_error {α : Type} {p : Parser Expr → Parser α} {s : String} {tokens : List Token}
    {e : SyntaxError} (hlex : Token.lex s = .ok tokens) : read p s = .error e ↔
      ∃ stuck, whole (p (nested tokens.length)) tokens = .error stuck ∧
        stuck.error s.utf8ByteSize = e := by
  simp only [read, hlex, bind, Except.bind]
  cases whole (p (nested tokens.length)) tokens with
  | error stuck => simp [throw, throwThe, MonadExceptOf.throw]
  | ok found => simp [pure, Except.pure]

end Parser

/-- Where a text that has tokens is no expression, its tokens begin one up to the token `t`, with
which none goes on. The token is blamed, the end of the text too, unless a point comes right before
that end. -/
theorem parse_error_span {s : String} {tokens : List Token} {e : SyntaxError}
    (htokens : Token.tokenize s = .ok tokens) (hparse : Expr.parse s = .error e)
    (hfault : e.fault ≠ .positionalAfterNamed) :
    ∃ before t later, tokens = before ++ t :: later ∧
      Parser.BeginsAccepted (before.map Token.kind) ∧
      ¬ Parser.BeginsAccepted (before.map Token.kind ++ [t.kind]) ∧
      e.span = (Parser.blamed before t).span := by
  obtain ⟨lexed, hlex, rfl⟩ := Token.tokenize_eq_ok.mp htokens
  have heof := Token.lexFrom_kind hlex
  obtain ⟨stuck, hwhole, rfl⟩ := (Parser.read_eq_error hlex).mp hparse
  have haccords := Parser.whole_accords (Parser.pipeline_nested_discharges lexed.length)
    (Nat.le_refl lexed.length)
  rw [hwhole] at haccords
  obtain ⟨fault, hscan, hrest⟩ := haccords
  have hspan := stuck.error_span s.utf8ByteSize
  rw [← hrest (stuck.complaint_of_fault hfault)] at hspan
  have hbefore (before later : List Token) (h : lexed = before ++ later) :
      ∀ kind ∈ before.map Token.kind, kind ≠ .eof := by
    rw [h] at heof
    exact List.forall_mem_map.mpr fun t ht => heof t (List.mem_append_left later ht)
  rcases Parser.scan_error hscan with
    ⟨before, t, later, σ, hlexed, hwalk, hstep, rfl⟩ | ⟨σ, hwalk, hend, rfl⟩
  · have ht : t.kind ≠ .eof := heof t (by rw [hlexed]; simp)
    refine ⟨before, t, later ++ [⟨.eof, ⟨s.utf8ByteSize, s.utf8ByteSize⟩⟩], ?_, ?_, ?_, ?_⟩
    · rw [hlexed, List.append_assoc, List.cons_append]
    · exact Parser.beginsAccepted_of_walk (hbefore before (t :: later) hlexed) hwalk
    · exact Parser.not_beginsAccepted_of_step ht hwalk hstep
    · rw [hspan, Parser.blamed_of_ne_eof ht]
      rfl
  · refine ⟨lexed, ⟨.eof, ⟨s.utf8ByteSize, s.utf8ByteSize⟩⟩, [], rfl, ?_, ?_, ?_⟩
    · exact Parser.beginsAccepted_of_walk (hbefore lexed [] (List.append_nil _).symm) hwalk
    · exact Parser.not_beginsAccepted_eof hwalk hend
    · rw [hspan, Parser.blamed]
      cases Parser.pointAtEnd? lexed <;> rfl

/-- The second operand of two is blamed. -/
theorem parse_error_span_of_operands : ∃ before t later,
    [(⟨.ident "a", ⟨0, 1⟩⟩ : Token), ⟨.ident "b", ⟨2, 3⟩⟩, ⟨.eof, ⟨3, 3⟩⟩] = before ++ t :: later ∧
      Parser.BeginsAccepted (before.map Token.kind) ∧
      ¬ Parser.BeginsAccepted (before.map Token.kind ++ [t.kind]) ∧
      (⟨2, 3⟩ : Span) = (Parser.blamed before t).span := by
  have hlex : Token.lex "a b" = .ok [⟨.ident "a", ⟨0, 1⟩⟩, ⟨.ident "b", ⟨2, 3⟩⟩] := by cbv
  have htokens : Token.tokenize "a b"
      = .ok [⟨.ident "a", ⟨0, 1⟩⟩, ⟨.ident "b", ⟨2, 3⟩⟩, ⟨.eof, ⟨3, 3⟩⟩] :=
    Token.tokenize_eq_ok.mpr ⟨_, hlex, rfl⟩
  have hparse : Expr.parse "a b" = .error ⟨.unexpectedToken (.ident "b"), ⟨2, 3⟩⟩ :=
    (Parser.read_eq_error hlex).mpr ⟨_, rfl, rfl⟩
  exact parse_error_span htokens hparse (by simp)

/-- A point at the end of a text is blamed, although a name may follow it. -/
theorem trailing_point_blamed : ∃ tokens e, Token.tokenize "a." = .ok tokens ∧
    Expr.parse "a." = .error e ∧ e.fault ≠ .positionalAfterNamed ∧
    ¬ ∃ before t later, tokens = before ++ t :: later ∧
      Parser.BeginsAccepted (before.map Token.kind) ∧
      ¬ Parser.BeginsAccepted (before.map Token.kind ++ [t.kind]) ∧ e.span = t.span := by
  have hlex : Token.lex "a." = .ok [⟨.ident "a", ⟨0, 1⟩⟩, ⟨.symbol .dot, ⟨1, 2⟩⟩] := by cbv
  have htokens : Token.tokenize "a."
      = .ok [⟨.ident "a", ⟨0, 1⟩⟩, ⟨.symbol .dot, ⟨1, 2⟩⟩, ⟨.eof, ⟨2, 2⟩⟩] :=
    Token.tokenize_eq_ok.mpr ⟨_, hlex, rfl⟩
  have hparse : Expr.parse "a."
      = .error ⟨.expected "property name after '.'" (.symbol .dot), ⟨1, 2⟩⟩ :=
    (Parser.read_eq_error hlex).mpr ⟨_, rfl, rfl⟩
  refine ⟨_, _, htokens, hparse, by simp, ?_⟩
  rintro ⟨before, t, later, hsplit, -, hstuck, hspan⟩
  have hpoint : Parser.BeginsAccepted [.ident "a", .symbol .dot] :=
    Parser.beginsAccepted_of_walk (by simp) rfl
  rcases before with _ | ⟨first, _ | ⟨second, _ | ⟨third, before⟩⟩⟩
  all_goals simp only [List.nil_append, List.cons_append, List.cons.injEq, reduceCtorEq, and_false,
    List.nil_eq, List.append_eq_nil_iff] at hsplit
  · obtain ⟨rfl, -⟩ := hsplit
    cases hspan
  · obtain ⟨rfl, rfl, -⟩ := hsplit
    exact hstuck hpoint
  · obtain ⟨rfl, rfl, rfl, -⟩ := hsplit
    cases hspan

end Stencil
