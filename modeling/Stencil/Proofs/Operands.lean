import Mathlib
import Stencil.Proofs.Precedence

/-!
# Operands

Every printable expression is read from its own tokens, at its own level by itself and at any level
as an operand. The depth of brackets that a reader is given is bounded by the number of the tokens.
-/
namespace Stencil

open TokenKind (wrap)
open Stencil.Parser (Reads ReadsAt BeginsAt ContinuesAt Stops Leads atom? nested)

theorem isIdentifier_of_letters {word : String} (hne : word.toList ≠ [])
    (h : word.toList.all Token.isNameStart = true) : IsIdentifier word := by
  obtain ⟨first, parts, hword⟩ := List.exists_cons_of_ne_nil hne
  rw [hword, List.all_cons, Bool.and_eq_true, List.all_eq_true] at h
  refine ⟨first, parts, [], by rw [hword, List.append_nil], h.1, fun c hc => ?_, .inl rfl⟩
  have hstart := h.2 c hc
  simp only [Token.isNameStart, Bool.or_eq_true] at hstart
  simp only [Token.isNamePart, Char.isAlphanum, Bool.or_eq_true]
  tauto

namespace TokenKind

variable {required level : Nat} {kinds : List TokenKind} {k : TokenKind}

/-- What an expression is made of. -/
structure InExpr (k : TokenKind) : Prop where
  printable : k.Printable
  not_colon : k ≠ .symbol .colon

theorem inExpr_symbol {s : Symbol} (h : s ≠ .colon) : InExpr (.symbol s) :=
  ⟨trivial, fun heq => h (TokenKind.symbol.inj heq)⟩

theorem inExpr_ident {name : String} (h : IsIdentifier name) : InExpr (.ident name) :=
  ⟨h, fun heq => TokenKind.noConfusion heq⟩

theorem inExpr_operator (op : Operator) : InExpr op.kind := by
  cases op
  case or | and | contains =>
    exact inExpr_ident (isIdentifier_of_letters (by decide) (by decide))
  all_goals exact inExpr_symbol (by decide)

theorem inExpr_of_mem_wrap (h : ∀ k ∈ kinds, k.InExpr) (hk : k ∈ wrap required level kinds) :
    k.InExpr := by
  unfold wrap at hk
  split at hk
  · simp only [List.cons_append, List.mem_cons, List.mem_append, List.not_mem_nil, or_false] at hk
    obtain rfl | hk | rfl := hk
    · exact inExpr_symbol (by decide)
    · exact h k hk
    · exact inExpr_symbol (by decide)
  · exact h k hk

end TokenKind

open TokenKind (InExpr inExpr_symbol inExpr_ident inExpr_operator inExpr_of_mem_wrap)

namespace Expr

variable {e base key : Expr} {kind : TokenKind}

/-- An expression that is a single token. -/
structure IsAtom (e : Expr) (kind : TokenKind) : Prop where
  kinds : e.kinds = [kind]
  level : e.level = 6
  atom : atom? kind = some e
  inExpr : kind.InExpr
  not_not : kind.isWord "not" = false

theorem isAtom_variable {name : String} (h : IsIdentifier name) (hname : name ∉ reservedWords) :
    IsAtom (.variable name) (.ident name) := by
  simp only [reservedWords, List.mem_cons, List.not_mem_nil, or_false, not_or] at hname
  refine ⟨rfl, rfl, ?_, inExpr_ident h, ?_⟩
  · unfold atom?
    split <;> simp_all
  · exact decide_eq_false hname.2.2.2.2.2.2.2.2.1

theorem isAtom_literal {v : Value} (h : (Expr.literal v).Printable) :
    IsAtom (.literal v) v.literalKind := by
  cases v with
  | nil =>
    exact ⟨rfl, rfl, rfl, inExpr_ident (isIdentifier_of_letters (by decide) (by decide)), rfl⟩
  | bool b =>
    cases b <;>
    exact ⟨rfl, rfl, rfl, inExpr_ident (isIdentifier_of_letters (by decide) (by decide)), rfl⟩
  | int n => exact ⟨rfl, rfl, rfl, ⟨h, fun heq => TokenKind.noConfusion heq⟩, rfl⟩
  | str s => exact ⟨rfl, rfl, rfl, ⟨h, fun heq => TokenKind.noConfusion heq⟩, rfl⟩
  | _ => exact absurd h id

theorem isAtom_empty : IsAtom .empty (.ident "empty") :=
  ⟨rfl, rfl, rfl, inExpr_ident (isIdentifier_of_letters (by decide) (by decide)), rfl⟩

/-- Induction over printable expressions. -/
theorem Printable.induction {motive : ∀ e : Expr, e.Printable → Prop}
    (atom : ∀ e kind (h : e.Printable), IsAtom e kind → motive e h)
    (property : ∀ base key (hbase : Printable base) (hkey : IsIdentifier key),
      motive base hbase → motive (.property base key) ⟨hbase, hkey⟩)
    (index : ∀ base key (hbase : Printable base) (hkey : Printable key),
      motive base hbase → motive key hkey → motive (.index base key) ⟨hbase, hkey⟩)
    (range : ∀ first last (hfirst : Printable first) (hlast : Printable last),
      motive first hfirst → motive last hlast → motive (.range first last) ⟨hfirst, hlast⟩)
    (not : ∀ operand (h : Printable operand), motive operand h → motive (.not operand) h)
    (binary : ∀ op left right (hleft : Printable left) (hright : Printable right),
      motive left hleft → motive right hright → motive (.binary op left right) ⟨hleft, hright⟩) :
    ∀ (e : Expr) (h : e.Printable), motive e h
  | .literal _, h => atom _ _ h (isAtom_literal h)
  | .empty, h => atom _ _ h isAtom_empty
  | .variable _, h => atom _ _ h (isAtom_variable h.1 h.2)
  | .property base key, h => property base key h.1 h.2
      (Printable.induction atom property index range not binary base h.1)
  | .index base key, h => index base key h.1 h.2
      (Printable.induction atom property index range not binary base h.1)
      (Printable.induction atom property index range not binary key h.2)
  | .range first last, h => range first last h.1 h.2
      (Printable.induction atom property index range not binary first h.1)
      (Printable.induction atom property index range not binary last h.2)
  | .not operand, h => not operand h
      (Printable.induction atom property index range not binary operand h)
  | .binary op left right, h => binary op left right h.1 h.2
      (Printable.induction atom property index range not binary left h.1)
      (Printable.induction atom property index range not binary right h.2)

/-- A printable expression consists of tokens that can be printed, none of them a colon. -/
theorem inExpr_of_mem_kinds (h : e.Printable) : ∀ k ∈ e.kinds, k.InExpr := by
  induction e, h using Printable.induction with
  | atom e kind h hatom =>
    rw [hatom.kinds]
    exact List.forall_mem_singleton.mpr hatom.inExpr
  | property base key hbase hkey ih =>
    refine List.forall_mem_append.mpr ⟨fun k => inExpr_of_mem_wrap ih, ?_⟩
    exact List.forall_mem_cons.mpr
      ⟨inExpr_symbol (by decide), List.forall_mem_singleton.mpr (inExpr_ident hkey)⟩
  | index base key hbase hkey ihbase ihkey =>
    refine List.forall_mem_append.mpr ⟨List.forall_mem_append.mpr
      ⟨fun k => inExpr_of_mem_wrap ihbase, ?_⟩, ?_⟩
    · exact List.forall_mem_cons.mpr ⟨inExpr_symbol (by decide), ihkey⟩
    · exact List.forall_mem_singleton.mpr (inExpr_symbol (by decide))
  | range first last hfirst hlast ihfirst ihlast =>
    refine List.forall_mem_append.mpr ⟨List.forall_mem_append.mpr ⟨?_, ?_⟩, ?_⟩
    · exact List.forall_mem_cons.mpr ⟨inExpr_symbol (by decide), ihfirst⟩
    · exact List.forall_mem_cons.mpr ⟨inExpr_symbol (by decide), ihlast⟩
    · exact List.forall_mem_singleton.mpr (inExpr_symbol (by decide))
  | not operand h ih =>
    have hnot : IsIdentifier "not" := isIdentifier_of_letters (by decide) (by decide)
    exact List.forall_mem_cons.mpr ⟨inExpr_ident hnot, fun k => inExpr_of_mem_wrap ih⟩
  | binary op left right hleft hright ihleft ihright =>
    refine List.forall_mem_append.mpr ⟨fun k => inExpr_of_mem_wrap ihleft, ?_⟩
    exact List.forall_mem_cons.mpr ⟨inExpr_operator op, fun k => inExpr_of_mem_wrap ihright⟩

theorem printable_of_mem_operandKinds (h : e.Printable) (required : Nat) :
    ∀ k ∈ e.operandKinds required, k.Printable :=
  fun _ hk => (inExpr_of_mem_wrap (inExpr_of_mem_kinds h) hk).printable

/-- There is a first token, and an expression that binds more tightly than `not` does not begin with
it. -/
def Starts (kinds : List TokenKind) (level : Nat) : Prop :=
  ∃ kind later, kinds = kind :: later ∧ (2 < level → kind.isWord "not" = false)

theorem Starts.append {kinds : List TokenKind} {level level' : Nat} (h : Starts kinds level)
    (hlevel : level' ≤ level) (more : List TokenKind) : Starts (kinds ++ more) level' := by
  obtain ⟨kind, later, rfl, hnot⟩ := h
  exact ⟨kind, later ++ more, rfl, fun hlt => hnot (by omega)⟩

theorem Starts.leads {kinds : List TokenKind} {level : Nat} {P : TokenKind → Prop}
    (h : Starts kinds level) (hlevel : 2 < level) :
    Leads (fun kind => kind.isWord "not" = false) kinds P := by
  obtain ⟨kind, later, rfl, hnot⟩ := h
  exact hnot hlevel

theorem Starts.length_pos {kinds : List TokenKind} {level : Nat} (h : Starts kinds level) :
    0 < kinds.length := by
  obtain ⟨kind, later, rfl, -⟩ := h
  exact Nat.succ_pos _

theorem starts_operandKinds {required : Nat} (h : Starts e.kinds e.level) :
    Starts (e.operandKinds required) required := by
  unfold operandKinds wrap
  split
  · exact ⟨_, _, rfl, fun _ => rfl⟩
  case isFalse hlevel =>
    have hkinds := h.append (Nat.le_of_not_lt hlevel) []
    rwa [List.append_nil] at hkinds

theorem starts_kinds (h : e.Printable) : Starts e.kinds e.level := by
  induction e, h using Printable.induction with
  | atom e kind h hatom =>
    rw [hatom.kinds]
    exact ⟨kind, [], rfl, fun _ => hatom.not_not⟩
  | property base key hbase hkey ih => exact (starts_operandKinds ih).append (Nat.le_refl 6) _
  | index base key hbase hkey ihbase ihkey =>
    exact ((starts_operandKinds ihbase).append (Nat.le_refl 6) _).append (Nat.le_refl 6) _
  | range first last hfirst hlast ihfirst ihlast => exact ⟨_, _, rfl, fun _ => rfl⟩
  | not operand h ih => exact ⟨_, _, rfl, fun hlt => absurd hlt (Nat.lt_irrefl 2)⟩
  | binary op left right hleft hright ihleft ihright =>
    have hlevel : op.level ≤ op.leftLevel := by cases op <;> decide
    exact (starts_operandKinds ihleft).append hlevel _

theorem level_le (e : Expr) : e.level ≤ 6 := by
  cases e with
  | binary op left right =>
    have hop : op.level ≤ 6 := by cases op <;> decide
    exact hop
  | not => exact Nat.le_add_left 2 4
  | _ => exact Nat.le_refl 6

/-- With brackets as deep as it may need, the expression is read from its tokens. -/
def Readable (e : Expr) : Prop :=
  ∀ n, e.kinds.length ≤ n + 1 → BeginsAt (nested n) e.level e.kinds e

theorem Readable.nested (h : e.Readable) (hstarts : Starts e.kinds e.level) {n : Nat}
    (hn : e.kinds.length ≤ n) : Reads (nested n) e.kinds e (Stops 0) := by
  have hpos : 0 < n := hstarts.length_pos.trans_le hn
  obtain ⟨m, rfl⟩ := Nat.exists_eq_add_one_of_ne_zero (Nat.ne_of_gt hpos)
  have hloosest : BeginsAt (Parser.nested m) 0 e.kinds e :=
    (h m hn).of_le (Nat.zero_le _) e.level_le hstarts.leads
  exact hloosest.readsAt (by decide)

/-- As an operand, an expression is put in parentheses or else binds tightly enough. -/
theorem Readable.operand (h : e.Readable) (hstarts : Starts e.kinds e.level) {required n : Nat}
    (hrequired : required ≤ 6) (hn : (e.operandKinds required).length ≤ n + 1) :
    BeginsAt (Parser.nested n) required (e.operandKinds required) e := by
  have hleads : 2 < e.level → Leads (fun kind => kind.isWord "not" = false) e.kinds (Stops 2) :=
    hstarts.leads
  unfold operandKinds wrap at hn ⊢
  split at hn
  case isTrue hlevel =>
    rw [if_pos hlevel]
    -- the two parentheses are two tokens, of which the bound has one to spare
    have hinner : Reads (Parser.nested n) e.kinds e (Stops 0) := by
      refine h.nested hstarts ?_
      simp only [List.cons_append, List.length_cons, List.length_append, List.length_nil] at hn
      omega
    have hparens : BeginsAt (Parser.nested n) 6
        (.symbol .leftParen :: e.kinds ++ [.symbol .rightParen]) e :=
      ContinuesAt.primary (Parser.primary_parens hinner)
    exact hparens.of_le hrequired (Nat.le_refl 6) fun _ => rfl
  case isFalse hlevel =>
    rw [if_neg hlevel]
    exact (h n hn).of_le (Nat.le_of_not_lt hlevel) e.level_le hleads

theorem readable (h : e.Printable) : e.Readable := by
  induction e, h using Printable.induction with
  | atom e kind h hatom =>
    intro n _
    rw [hatom.kinds, hatom.level]
    exact ContinuesAt.primary (Parser.primary_atom hatom.atom)
  | property base key hbase hkey ih =>
    intro n hn
    have hkinds : (Expr.property base key).kinds
      = base.operandKinds 6 ++ [.symbol .dot, .ident key] := rfl
    simp only [hkinds, List.length_append, List.length_cons, List.length_nil] at hn
    have hoperand : ContinuesAt (Parser.nested n) 6 (base.operandKinds 6) base :=
      ih.operand (starts_kinds hbase) (Nat.le_refl 6) (by omega)
    exact hoperand.property key
  | index base key hbase hkey ihbase ihkey =>
    intro n hn
    have hkinds : (Expr.index base key).kinds
      = base.operandKinds 6 ++ .symbol .leftBracket :: key.kinds ++ [.symbol .rightBracket] := rfl
    simp only [hkinds, List.length_append, List.length_cons, List.length_nil] at hn
    have hoperand : ContinuesAt (Parser.nested n) 6 (base.operandKinds 6) base :=
      ihbase.operand (starts_kinds hbase) (Nat.le_refl 6) (by omega)
    have hinner : Reads (Parser.nested n) key.kinds key (Stops 0) :=
      ihkey.nested (starts_kinds hkey) (by omega)
    have hindex := hoperand.index hinner
    rwa [← List.cons_append, ← List.append_assoc] at hindex
  | range first last hfirst hlast ihfirst ihlast =>
    intro n hn
    have hkinds : (Expr.range first last).kinds = .symbol .leftParen :: first.kinds ++
      .symbol .dotDot :: last.kinds ++ [.symbol .rightParen] := rfl
    simp only [hkinds, List.length_append, List.length_cons, List.length_nil] at hn
    have hlower : Reads (Parser.nested n) first.kinds first (Stops 0) :=
      ihfirst.nested (starts_kinds hfirst) (by omega)
    have hupper : Reads (Parser.nested n) last.kinds last (Stops 0) :=
      ihlast.nested (starts_kinds hlast) (by omega)
    exact ContinuesAt.primary (Parser.primary_range hlower hupper)
  | not operand h ih =>
    intro n hn
    have hkinds : (Expr.not operand).kinds = .ident "not" :: operand.operandKinds 2 := rfl
    rw [hkinds, List.length_cons] at hn
    have hoperand : BeginsAt (Parser.nested n) 2 (operand.operandKinds 2) operand :=
      ih.operand (starts_kinds h) (by decide) (by omega)
    exact Parser.Negates.not hoperand
  | binary op left right hleft hright ihleft ihright =>
    intro n hn
    have hkinds : (Expr.binary op left right).kinds
      = left.operandKinds op.leftLevel ++ op.kind :: right.operandKinds (op.level + 1) := rfl
    simp only [hkinds, List.length_append, List.length_cons] at hn
    have hlevels : op.leftLevel ≤ 6 ∧ op.level + 1 ≤ 6 := by cases op <;> decide
    have hfirst : BeginsAt (Parser.nested n) op.leftLevel (left.operandKinds op.leftLevel) left :=
      ihleft.operand (starts_kinds hleft) hlevels.1 (by omega)
    have hsecond : ReadsAt (Parser.nested n) (op.level + 1) (right.operandKinds (op.level + 1))
        right :=
      (ihright.operand (starts_kinds hright) hlevels.2 (by omega)).readsAt hlevels.2
    exact Parser.beginsAt_binary hfirst hsecond

end Expr

end Stencil
