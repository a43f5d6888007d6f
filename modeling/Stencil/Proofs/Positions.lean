import Mathlib
import Stencil.Proofs.Evaluation
import Stencil.Proofs.Markup
import Stencil.Expr.Parser

/-!
# Positions in an expression

Wherever the reading of a text fails, and wherever a filter is called in what it is read into, the
position that is stated lies within the text or at its end. A parser that is given tokens within the
text leaves such tokens, and makes its positions of theirs.
-/
namespace Stencil

namespace Expr

/-- Every filter call starts within the first `size` bytes, or right after them. -/
def Within (size : Nat) (e : Expr) : Prop := ∀ call ∈ e.filterCalls, call.span.start ≤ size

variable {size : Nat}

theorem within_binary {op : Operator} {left right : Expr} :
    Within size (.binary op left right) ↔ left.Within size ∧ right.Within size := by
  simp only [Within, filterCalls, List.forall_mem_append]

theorem within_index {base key : Expr} :
    Within size (.index base key) ↔ base.Within size ∧ key.Within size := by
  simp only [Within, filterCalls, List.forall_mem_append]

theorem within_range {first last : Expr} :
    Within size (.range first last) ↔ first.Within size ∧ last.Within size := by
  simp only [Within, filterCalls, List.forall_mem_append]

theorem within_filtered {base : Expr} {calls : List FilterCall} :
    Within size (.filtered base calls) ↔
      (∀ call ∈ ofCalls calls, call.span.start ≤ size) ∧ base.Within size := by
  simp only [Within, filterCalls, List.forall_mem_append]

theorem Within.not_repeat {e : Expr} (h : e.Within size) (n : Nat) :
    Within size (Nat.repeat Expr.not n e) := by
  induction n with
  | zero => exact h
  | succ n ih =>
    intro call hcall
    simp only [Nat.repeat, filterCalls] at hcall
    exact ih call hcall

theorem ofArgs_eq (args : List Expr) : ofArgs args = args.flatMap filterCalls := by
  induction args with
  | nil => rfl
  | cons e args ih => rw [ofArgs, ih, List.flatMap_cons]

theorem ofCalls_append (calls more : List FilterCall) :
    ofCalls (calls ++ more) = ofCalls calls ++ ofCalls more := by
  induction calls with
  | nil => rfl
  | cons call calls ih =>
    obtain ⟨name, args, named, span⟩ := call
    simp only [List.cons_append, ofCalls, ih, List.append_assoc]

end Expr

/-- The tokens start within the first `size` bytes, or right after them. -/
def AllWithin (size : Nat) (tokens : List Token) : Prop := ∀ t ∈ tokens, t.span.start ≤ size

/-- What is read of the first `size` bytes is `Q`, or the fault starts within them or right after
them. -/
def ReadWithin {α : Type} (size : Nat) (Q : α → Prop) : Except SyntaxError α → Prop
  | .ok a => Q a
  | .error e => e.span.start ≤ size

namespace Token

/-- Tokens, and what is none, are found within the text. -/
theorem lexFrom_within (pos : Nat) (afterOperand : Bool) (cs : List Char) :
    ReadWithin (pos + byteLength cs) (AllWithin (pos + byteLength cs))
      (lexFrom pos afterOperand cs) := by
  fun_induction lexFrom pos afterOperand cs with
  | case1 => exact fun t ht => (List.not_mem_nil ht).elim
  | case2 pos afterOperand c cs hblank ih =>
    have hpos : 0 < c.utf8Size := c.utf8Size_pos
    have hle : pos + 1 + byteLength cs ≤ pos + byteLength (c :: cs) := by
      rw [byteLength_cons]
      omega
    cases hrest : lexFrom (pos + 1) afterOperand cs with
    | error e =>
      rw [hrest] at ih
      exact Nat.le_trans ih hle
    | ok tokens =>
      rw [hrest] at ih
      exact fun t ht => (ih t ht).trans hle
  | case3 pos => exact Nat.le_add_right _ _
  | case4 pos afterOperand c cs hblank l hl stop ih =>
    have hlength : byteLength (c :: cs) = byteLength l.text + byteLength l.rest := by
      rw [(lexeme_append hl).1, byteLength_append]
    have hstop : stop + byteLength l.rest = pos + byteLength (c :: cs) := by
      rw [hlength]
      exact Nat.add_assoc _ _ _
    rw [hstop] at ih
    cases hrest : lexFrom stop l.kind.endsOperand l.rest with
    | error e =>
      rw [hrest] at ih
      exact ih
    | ok tokens =>
      rw [hrest] at ih
      exact List.forall_mem_cons.mpr ⟨Nat.le_add_right _ _, ih⟩

end Token

namespace Parser

variable {α β : Type} {size : Nat} {Q : α → Prop} {R : β → Prop}

/-- A parser has made what is `Q`, and has left tokens within the text, also where it is stuck. -/
def Leaves (size : Nat) (Q : α → Prop) : Except Stuck (α × List Token) → Prop
  | .ok (a, rest) => Q a ∧ AllWithin size rest
  | .error stuck => AllWithin size stuck.rest

/-- Of tokens within the text a parser makes what is `Q`, and leaves such tokens. -/
def Keeps (size : Nat) (Q : α → Prop) (p : Parser α) : Prop :=
  ∀ tokens, AllWithin size tokens → Leaves size Q (p tokens)

namespace Keeps

theorem ret {a : α} (h : Q a) : Keeps size Q (pure a) := fun _ ht => ⟨h, ht⟩

theorem fail (complaint : Complaint) : Keeps size Q (stuck complaint) := fun _ ht => ht

theorem bind {p : Parser α} {f : α → Parser β} (hp : Keeps size Q p)
    (hf : ∀ a, Q a → Keeps size R (f a)) : Keeps size R (p >>= f) := by
  intro tokens ht
  have h := hp tokens ht
  change Leaves size R (p tokens >>= fun found => f found.1 found.2)
  rcases hr : p tokens with stuck | ⟨a, rest⟩
  · rw [hr] at h
    exact h
  · rw [hr] at h
    exact hf a h.1 rest h.2

theorem map {p : Parser α} {f : α → β} (hp : Keeps size Q p) (hf : ∀ a, Q a → R (f a)) :
    Keeps size R (p >>= fun a => pure (f a)) := hp.bind fun a ha => .ret (hf a ha)

/-- What is left can be looked at. -/
theorem rest : Keeps size (AllWithin size) (get : Parser (List Token)) := fun _ ht => ⟨ht, ht⟩

theorem set {tokens : List Token} (h : AllWithin size tokens) :
    Keeps size (fun _ => True) (set tokens : Parser PUnit) := fun _ _ => ⟨trivial, h⟩

theorem take? {f : TokenKind → Option α} (h : ∀ kind a, f kind = some a → Q a) :
    Keeps size (fun found => ∀ a ∈ found, Q a) (take? f) := by
  have hnone : ∀ a ∈ (none : Option α), Q a := fun a ha => by cases ha
  intro tokens ht
  cases tokens with
  | nil => exact ⟨hnone, ht⟩
  | cons t rest =>
    simp only [Parser.take?]
    cases hf : f t.kind with
    | none => exact ⟨hnone, ht⟩
    | some a =>
      refine ⟨fun b hb => ?_, fun u hu => ht u (List.mem_cons_of_mem t hu)⟩
      cases hb
      exact h t.kind a hf

theorem need (what : String) {f : TokenKind → Option α} (h : ∀ kind a, f kind = some a → Q a) :
    Keeps size Q (need what f) := by
  refine (take? h).bind fun found hfound => ?_
  cases found with
  | some a => exact .ret (hfound a rfl)
  | none => exact .fail _

theorem needAny (what : String) (f : TokenKind → Option α) :
    Keeps size (fun _ => True) (Parser.need what f) := need what fun _ _ _ => trivial

theorem accept (test : TokenKind → Bool) : Keeps size (fun _ => True) (accept test) :=
  (take? (Q := fun _ => True) fun _ _ _ => trivial).map fun _ _ => trivial

/-- Two ways to go on, as a token is accepted or not. -/
theorem ifAccept {test : TokenKind → Bool} {p q : Parser α} (hp : Keeps size Q p)
    (hq : Keeps size Q q) : Keeps size Q (do if ← Parser.accept test then p else q) := by
  refine (accept test).bind fun accepted _ => ?_
  cases accepted with
  | true => exact hp
  | false => exact hq

theorem extendAtMost {step? : α → Parser (Option α)}
    (hstep : ∀ a, Q a → Keeps size (fun found => ∀ b ∈ found, Q b) (step? a)) (n : Nat) {a : α}
    (ha : Q a) : Keeps size Q (extendAtMost step? n a) := by
  induction n generalizing a with
  | zero => exact .ret ha
  | succ n ih =>
    refine (hstep a ha).bind fun found hfound => ?_
    cases found with
    | some b => exact ih (hfound b rfl)
    | none => exact .ret ha

theorem extend {step? : α → Parser (Option α)}
    (hstep : ∀ a, Q a → Keeps size (fun found => ∀ b ∈ found, Q b) (step? a)) {a : α}
    (ha : Q a) : Keeps size Q (extend step? a) :=
  rest.bind fun _ _ => extendAtMost hstep _ ha

theorem some {a : α} (h : Q a) : Keeps size (fun found => ∀ b ∈ found, Q b) (pure (some a)) := by
  refine .ret fun b hb => ?_
  cases hb
  exact h

theorem none : Keeps size (fun found => ∀ b ∈ found, Q b) (pure (none : Option α)) := by
  refine .ret fun b hb => ?_
  cases hb

end Keeps

section

open Stencil.Expr (Within ofCalls ofArgs ofNamed)

variable {inner : Parser Expr}

theorem chain_keeps {operand : Parser Expr} (h : Keeps size (Within size) operand)
    (operator? : TokenKind → Option Operator) :
    Keeps size (Within size) (chain operand operator?) := by
  refine h.bind fun first hfirst => .extend (fun left hleft => ?_) hfirst
  refine (Keeps.take? (Q := fun _ => True) fun _ _ _ => trivial).bind fun op _ => ?_
  cases op with
  | some op => exact h.bind fun right hright => .some (Expr.within_binary.mpr ⟨hleft, hright⟩)
  | none => exact .none

theorem within_of_atom? {kind : TokenKind} {e : Expr} (h : atom? kind = some e) :
    e.Within size := by
  have hnone : e.filterCalls = [] := by
    unfold atom? at h
    split at h <;> cases h <;> rfl
  rw [Within, hnone]
  exact fun _ hcall => (List.not_mem_nil hcall).elim

theorem member_keeps {base : Expr} (hbase : base.Within size) :
    Keeps size (Within size) (member base) := by
  intro tokens ht
  unfold member
  split
  · exact ⟨hbase, fun u hu => ht u (by simp [hu])⟩
  · refine ⟨Expr.within_index.mpr ⟨hbase, ?_⟩, fun u hu => ht u (by simp [hu])⟩
    exact fun _ hcall => (List.not_mem_nil hcall).elim
  · exact fun u hu => ht u (List.mem_cons_of_mem _ hu)
  · exact ht

variable (h : Keeps size (Within size) inner)
include h

theorem primary_keeps : Keeps size (Within size) (primary inner) := by
  refine .ifAccept ?_ (.need _ fun _ _ => within_of_atom?)
  refine h.bind fun first hfirst => .ifAccept ?_ ?_
  · exact h.bind fun last hlast => (Keeps.needAny _ _).map fun _ _ =>
      Expr.within_range.mpr ⟨hfirst, hlast⟩
  · exact (Keeps.needAny _ _).map fun _ _ => hfirst

theorem pathStep_keeps {base : Expr} (hbase : base.Within size) :
    Keeps size (fun found => ∀ e ∈ found, e.Within size) (pathStep? inner base) := by
  refine Keeps.rest.bind fun tokens _ => ?_
  split
  · exact (member_keeps hbase).bind fun e he => .some he
  · refine .ifAccept (h.bind fun key hkey => (Keeps.needAny _ _).bind fun _ _ => ?_) .none
    exact .some (Expr.within_index.mpr ⟨hbase, hkey⟩)

theorem path_keeps : Keeps size (Within size) (path inner) :=
  (primary_keeps h).bind fun _ hfirst => .extend (fun _ hbase => pathStep_keeps h hbase) hfirst

theorem sum_keeps : Keeps size (Within size) (sum inner) :=
  chain_keeps (chain_keeps (path_keeps h) _) _

theorem comparison_keeps : Keeps size (Within size) (comparison inner) := by
  refine (sum_keeps h).bind fun left hleft => ?_
  refine (Keeps.take? (Q := fun _ => True) fun _ _ _ => trivial).bind fun op _ => ?_
  cases op with
  | some op =>
    exact (sum_keeps h).map fun right hright => Expr.within_binary.mpr ⟨hleft, hright⟩
  | none => exact .ret hleft

theorem negation_keeps : Keeps size (Within size) (negation inner) := by
  have hmarks : Keeps size (fun _ => True) (extend (fun n => do
      return if ← acceptWord "not" then some (n + 1) else none) 0) :=
    .extend (fun n _ => (Keeps.accept _).map fun _ _ _ _ => trivial) trivial
  exact hmarks.bind fun marks _ => (comparison_keeps h).map fun e he => he.not_repeat marks

theorem disjunction_keeps : Keeps size (Within size) (disjunction inner) :=
  chain_keeps (chain_keeps (negation_keeps h) _) _

omit h in
theorem nested_keeps (n : Nat) : Keeps size (Within size) (nested n) := by
  induction n with
  | zero => exact .fail _
  | succ n ih => exact disjunction_keeps ih

/-- What holds of all calls in arguments. -/
def Arguments.Within (size : Nat) (a : Arguments) : Prop :=
  ∀ call ∈ ofArgs a.1 ++ ofNamed a.2, call.span.start ≤ size

theorem argument_keeps {before : Arguments} (hbefore : before.Within size) :
    Keeps size (Arguments.Within size) (argument inner before) := by
  rw [Arguments.Within, List.forall_mem_append] at hbefore
  refine Keeps.rest.bind fun tokens ht => ?_
  split
  · refine (Keeps.set fun u hu => ht u (by simp [hu])).bind fun _ _ => h.map fun e he => ?_
    refine List.forall_mem_append.mpr ⟨hbefore.1, fun call hcall => ?_⟩
    obtain ⟨other, hother, hin⟩ := Expr.mem_ofNamed.mp hcall
    rw [List.map_append, List.mem_append] at hother
    rcases hother with hother | hother
    · exact hbefore.2 call (Expr.mem_ofNamed.mpr ⟨other, hother, hin⟩)
    · obtain rfl : other = e := List.mem_singleton.mp hother
      exact he call hin
  · split
    · refine h.map fun e he => ?_
      intro call hcall
      simp only [Expr.ofArgs_eq, List.flatMap_append, List.flatMap_singleton, ofNamed,
        List.append_nil, List.mem_append] at hcall
      rw [Expr.ofArgs_eq] at hbefore
      exact hcall.elim (hbefore.1 call) (he call)
    · exact .fail _

theorem arguments_keeps : Keeps size (Arguments.Within size) (arguments inner) := by
  have hnone : Arguments.Within size ([], []) := fun _ hcall => (List.not_mem_nil hcall).elim
  refine .ifAccept ?_ (.ret hnone)
  refine (argument_keeps h hnone).bind fun first hfirst => .extend (fun before hbefore => ?_) hfirst
  exact .ifAccept ((argument_keeps h hbefore).bind fun a ha => .some ha) .none

theorem filterCall_keeps :
    Keeps size (fun call => ∀ c ∈ ofCalls [call], c.span.start ≤ size) (filterCall inner) := by
  refine Keeps.rest.bind fun tokens ht => (Keeps.needAny _ _).bind fun filter _ => ?_
  refine (arguments_keeps h).bind fun a ha => Keeps.rest.map fun rest _ => ?_
  have hstart : (consumedSpan tokens rest).start ≤ size := by
    simp only [consumedSpan]
    cases hhead : (tokens.take (tokens.length - rest.length)).head? with
    | none => exact Nat.zero_le size
    | some t => exact ht t (List.mem_of_mem_take (List.mem_of_head? hhead))
  simp only [ofCalls, List.append_nil]
  exact List.forall_mem_cons.mpr ⟨hstart, ha⟩

theorem pipeline_keeps : Keeps size (Within size) (pipeline inner) := by
  refine h.bind fun base hbase => ?_
  have hcalls : Keeps size (fun calls => ∀ c ∈ ofCalls calls, c.span.start ≤ size)
      (extend (fun calls => do
        if ← acceptSymbol .pipe then return some (calls ++ [← filterCall inner])
        else return none) []) := by
    refine .extend (fun calls hcalls => ?_) fun _ hcall => (List.not_mem_nil hcall).elim
    refine .ifAccept ((filterCall_keeps h).bind fun call hcall => .some ?_) .none
    rw [Expr.ofCalls_append]
    exact List.forall_mem_append.mpr ⟨hcalls, hcall⟩
  refine hcalls.map fun calls hcalls => ?_
  split
  · exact hbase
  · exact Expr.within_filtered.mpr ⟨hcalls, hbase⟩

/-- Every expression of a statement is within the text. -/
abbrev StatementWithin (size : Nat) (s : Statement) : Prop := ∀ e ∈ s.expressions, e.Within size

theorem assignment_keeps : Keeps size (StatementWithin size) (assignment inner) := by
  refine (Keeps.needAny _ _).bind fun target _ => (Keeps.needAny _ _).bind fun _ _ => ?_
  exact (pipeline_keeps h).map fun e he => List.forall_mem_singleton.mpr he

def ModifiersWithin (size : Nat) (m : LoopModifiers) : Prop :=
  ∀ e ∈ m.limit.toList ++ m.offset.toList, e.Within size

theorem modifier_keeps {m : LoopModifiers} (hm : ModifiersWithin size m) :
    Keeps size (fun found => ∀ m ∈ found, ModifiersWithin size m) (modifier? inner m) := by
  have hmodifiers := List.forall_mem_append.mp hm
  refine .ifAccept (.some hm) (.ifAccept ?_ (.ifAccept ?_ .none))
  · refine (Keeps.needAny _ _).bind fun _ _ => (path_keeps h).bind fun e he => .some ?_
    exact List.forall_mem_append.mpr ⟨List.forall_mem_singleton.mpr he, hmodifiers.2⟩
  · refine (Keeps.needAny _ _).bind fun _ _ => (path_keeps h).bind fun e he => .some ?_
    exact List.forall_mem_append.mpr ⟨hmodifiers.1, List.forall_mem_singleton.mpr he⟩

theorem modifierStep_keeps {m : LoopModifiers} (hm : ModifiersWithin size m) :
    Keeps size (fun found => ∀ m ∈ found, ModifiersWithin size m) (modifierStep? inner m) := by
  refine (modifier_keeps h hm).bind fun found hfound => ?_
  cases found with
  | some next =>
    exact ((Keeps.accept _).map fun _ _ => trivial).bind fun _ (_ : True) => .some (hfound next rfl)
  | none => exact .none

theorem loop_keeps : Keeps size (StatementWithin size) (loop inner) := by
  refine (Keeps.needAny _ _).bind fun item _ => (Keeps.needAny _ _).bind fun _ _ => ?_
  refine (path_keeps h).bind fun source hsource => ?_
  have hnone : ModifiersWithin size {} := fun _ he => (List.not_mem_nil he).elim
  refine (Keeps.extend (fun m hm => modifierStep_keeps h hm) hnone).map fun m hm => ?_
  exact List.forall_mem_cons.mpr ⟨hsource, hm⟩

theorem separated_keeps (isSeparator : TokenKind → Bool) {first : Expr}
    (hfirst : first.Within size) :
    Keeps size (fun items => ∀ e ∈ items, e.Within size) (separated inner isSeparator first) := by
  refine .extend (fun items hitems => ?_) (List.forall_mem_singleton.mpr hfirst)
  refine .ifAccept (h.bind fun e he => .some ?_) .none
  exact List.forall_mem_append.mpr ⟨hitems, List.forall_mem_singleton.mpr he⟩

theorem cycle_keeps : Keeps size (StatementWithin size) (cycle inner) := by
  refine h.bind fun first hfirst => .ifAccept ?_ ?_
  · exact h.bind fun e he => (separated_keeps h _ he).map fun values hvalues =>
      List.forall_mem_cons.mpr ⟨hfirst, hvalues⟩
  · exact (separated_keeps h _ hfirst).map fun values hvalues => hvalues

theorem when_keeps : Keeps size (StatementWithin size) (when inner) :=
  (sum_keeps h).bind fun _ hfirst => (separated_keeps (sum_keeps h) _ hfirst).map fun _ h => h

theorem parameter_keeps {bindings : List (String × Expr)}
    (hb : ∀ e ∈ bindings.map Prod.snd, e.Within size) :
    Keeps size (fun found => ∀ bindings ∈ found, ∀ e ∈ bindings.map Prod.snd, e.Within size)
      (parameter? inner bindings) := by
  refine ((Keeps.accept _).map fun _ _ => trivial).bind fun _ (_ : True) => ?_
  refine Keeps.rest.bind fun tokens _ => ?_
  split
  · exact .none
  · refine (Keeps.needAny _ _).bind fun key _ => (Keeps.needAny _ _).bind fun _ _ => ?_
    refine h.bind fun e he => .some ?_
    rw [List.map_append]
    exact List.forall_mem_append.mpr ⟨hb, List.forall_mem_singleton.mpr he⟩

theorem subject_keeps :
    Keeps size (fun subject => ∀ e ∈ (subject.map Prod.fst).toList, e.Within size)
      (subject? inner) := by
  refine .ifAccept ((path_keeps h).bind fun e he => .ifAccept ?_ ?_) ?_
  · exact (Keeps.needAny _ _).map fun _ _ => List.forall_mem_singleton.mpr he
  · exact .ret (List.forall_mem_singleton.mpr he)
  · exact .ret fun _ he => (List.not_mem_nil he).elim

theorem inclusion_keeps : Keeps size (StatementWithin size) (inclusion inner) := by
  refine (path_keeps h).bind fun template ht => (subject_keeps h).bind fun subject hs => ?_
  refine (Keeps.extend (fun bindings hb => parameter_keeps h hb) ?_).map fun bindings hb => ?_
  · exact fun _ he => (List.not_mem_nil he).elim
  · exact List.forall_mem_cons.mpr ⟨ht, List.forall_mem_append.mpr ⟨hs, hb⟩⟩

theorem statement_keeps (production : Production) :
    Keeps size (StatementWithin size) (statement inner production) := by
  cases production with
  | expression => exact (pipeline_keeps h).map fun e he => List.forall_mem_singleton.mpr he
  | assignment => exact assignment_keeps h
  | loop => exact loop_keeps h
  | cycle => exact cycle_keeps h
  | when => exact when_keeps h
  | «include» => exact inclusion_keeps h

end

theorem whole_keeps {p : Parser α} (h : Keeps size Q p) : Keeps size Q (whole p) := by
  refine h.bind fun a ha => Keeps.rest.bind fun tokens _ => ?_
  split
  · exact .ret ha
  · exact .fail _

/-- The end of a text stands for the tokens that are missed there. -/
theorem Stuck.start_le {s : Stuck} (h : AllWithin size s.rest) :
    (s.error size).span.start ≤ size := by
  have htoken : (s.rest.head?.getD ⟨.eof, ⟨size, size⟩⟩).span.start ≤ size := by
    cases hhead : s.rest.head? with
    | none => exact Nat.le_refl size
    | some t => exact h t (List.mem_of_head? hhead)
  simp only [Stuck.error]
  split <;> exact htoken

/-- What a parser makes of a whole text is within it, and so is the fault if it makes nothing. -/
theorem read_within {p : Parser Expr → Parser α} {s : String}
    (h : ∀ inner, Keeps s.utf8ByteSize (Expr.Within s.utf8ByteSize) inner →
      Keeps s.utf8ByteSize Q (p inner)) :
    ReadWithin s.utf8ByteSize Q (read p s) := by
  have hlex := Token.lexFrom_within 0 false s.toList
  rw [Nat.zero_add, byteLength_toList] at hlex
  simp only [read, Token.lex]
  cases htokens : Token.lexFrom 0 false s.toList with
  | error e =>
    rw [htokens] at hlex
    exact hlex
  | ok tokens =>
    rw [htokens] at hlex
    have hread := whole_keeps (h _ (nested_keeps tokens.length)) tokens hlex
    rcases hr : whole (p (nested tokens.length)) tokens with stuck | ⟨a, rest⟩
    · rw [hr] at hread
      simp only [bind, Except.bind, hr]
      exact Stuck.start_le hread
    · rw [hr] at hread
      simp only [bind, Except.bind, hr]
      exact hread.1

end Parser

theorem Expr.parse_within (s : String) :
    ReadWithin s.utf8ByteSize (Expr.Within s.utf8ByteSize) (Expr.parse s) :=
  Parser.read_within fun _ h => Parser.pipeline_keeps h

theorem Statement.parse_within (production : Production) (s : String) :
    ReadWithin s.utf8ByteSize (fun statement => ∀ e ∈ statement.expressions,
      e.Within s.utf8ByteSize) (Statement.parse production s) :=
  Parser.read_within fun _ h => Parser.statement_keeps h production

end Stencil
