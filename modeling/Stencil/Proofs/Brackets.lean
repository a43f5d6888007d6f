import Mathlib
import Stencil.Proofs.Calls
import Stencil.Proofs.Lexemes
import Stencil.Proofs.Recognition

/-!
# Brackets around numbers

Without the brackets around its numbers a text is read as it is with them. Where a parser makes
something of tokens with such brackets it makes the same of the tokens without them, and leaves such
tokens as it was given.
-/
namespace Stencil.Parser

variable {α β γ δ : Type} {k : Nat} {us ts : List Token}

/-- The second tokens are the first ones, wherever they stand, less the brackets around some
numbers. -/
inductive Unbracketed : List Token → List Token → Prop
  | nil : Unbracketed [] []
  | keep {u t : Token} {us ts : List Token} (hkind : u.kind = t.kind)
      (hlater : Unbracketed us ts) : Unbracketed (u :: us) (t :: ts)
  | drop {left u right t : Token} {us ts : List Token} (hleft : left.kind = .symbol .leftParen)
      (hright : right.kind = .symbol .rightParen) (hnumber : u.kind.IsNumber)
      (hkind : u.kind = t.kind) (hlater : Unbracketed us ts) :
      Unbracketed (left :: u :: right :: us) (t :: ts)

namespace Unbracketed

theorem of_kinds (h : us.map Token.kind = ts.map Token.kind) : Unbracketed us ts := by
  induction us generalizing ts with
  | nil =>
    obtain rfl := List.map_eq_nil_iff.mp h.symm
    exact .nil
  | cons u us ih =>
    obtain ⟨t, ts, rfl, hkind, hlater⟩ := List.map_eq_cons_iff.mp h.symm
    exact .keep hkind.symm (ih hlater.symm)

theorem append {us' ts' : List Token} (h : Unbracketed us ts) (h' : Unbracketed us' ts') :
    Unbracketed (us ++ us') (ts ++ ts') := by
  induction h with
  | nil => exact h'
  | keep hkind _ ih => exact .keep hkind ih
  | drop hleft hright hnumber hkind _ ih => exact .drop hleft hright hnumber hkind ih

theorem isEmpty (h : Unbracketed us ts) : us.isEmpty = ts.isEmpty := by
  cases h <;> rfl

theorem length (h : Unbracketed us ts) : ts.length ≤ us.length := by
  induction h with
  | nil => exact Nat.le_refl _
  | keep _ _ ih => exact Nat.succ_le_succ ih
  | drop _ _ _ _ _ ih =>
    simp only [List.length_cons]
    omega

end Unbracketed

/-- What a parser makes of tokens another one makes of them without some brackets, where up to `k`
are left, as far as a relation tells. -/
def Tracks (k : Nat) (R : α → β → Prop) (p : Parser α) (q : Parser β) : Prop :=
  ∀ us ts a us', Unbracketed us ts → ts.length ≤ k → p us = .ok (a, us') →
    ∃ b ts', q ts = .ok (b, ts') ∧ R a b ∧ Unbracketed us' ts' ∧ ts'.length ≤ ts.length

/-- Neither a number nor the bracket before it is taken. -/
def Overlooks (choice? : TokenKind → Option α) : Prop :=
  choice? (.symbol .leftParen) = none ∧ ∀ kind : TokenKind, kind.IsNumber → choice? kind = none

/-- Tokens that are taken stand outside of the brackets. -/
theorem Unbracketed.next {choice? : TokenKind → Option α} (h : Unbracketed us ts)
    (hchoice : Overlooks choice?) (hus : Next (fun kind => choice? kind = none) us) :
    Next (fun kind => choice? kind = none) ts := by
  cases h with
  | nil => exact next_nil
  | @keep u t us ts hkind hlater =>
    have hu : choice? u.kind = none := hus u rfl
    rw [hkind] at hu
    exact next_cons hu
  | @drop left u right t us ts hleft hright hnumber hkind hlater =>
    exact next_cons (hchoice.2 t.kind (hkind ▸ hnumber))

theorem Unbracketed.next_test {test : TokenKind → Bool} (h : Unbracketed us ts)
    (htest : Overlooks fun kind => if test kind then some () else none)
    (hus : Next (fun kind => test kind = false) us) : Next (fun kind => test kind = false) ts :=
  (h.next htest (hus.mono fun kind hkind => by simp [hkind])).mono fun kind hkind => by
    simpa using hkind

theorem Unbracketed.tail {choice? : TokenKind → Option α} {u : Token} {c : α}
    (h : Unbracketed (u :: us) ts) (hchoice : Overlooks choice?) (hu : choice? u.kind = some c) :
    ∃ t ts', ts = t :: ts' ∧ choice? t.kind = some c ∧ Unbracketed us ts' := by
  cases h with
  | @keep u t us ts hkind hlater => exact ⟨t, ts, rfl, hkind ▸ hu, hlater⟩
  | @drop left u right t us ts hleft hright hnumber hkind hlater =>
    rw [hleft, hchoice.1] at hu
    cases hu

theorem overlooks_test {test : TokenKind → Bool} (hleft : test (.symbol .leftParen) = false)
    (hint : ∀ n, test (.int n) = false) (hfloat : ∀ x, test (.float x) = false) :
    Overlooks fun kind => if test kind then some () else none := by
  refine ⟨by simp [hleft], fun kind hkind => ?_⟩
  cases kind with
  | int n => simp [hint]
  | float x => simp [hfloat]
  | _ => exact hkind.elim

namespace Tracks

variable {R : α → β → Prop} {S : γ → δ → Prop} {p : Parser α} {q : Parser β}

theorem ret {a : α} {b : β} (h : R a b) : Tracks k R (pure a) (pure b) := by
  rintro us ts _ _ hus - ⟨⟩
  exact ⟨b, ts, rfl, h, hus, Nat.le_refl _⟩

theorem fail (complaint : Complaint) : Tracks k R (stuck complaint) q := by
  intro us ts a us' _ _ hok
  cases hok

theorem get : Tracks k Unbracketed get get := by
  rintro us ts _ _ hus - ⟨⟩
  exact ⟨ts, ts, rfl, hus, hus, Nat.le_refl _⟩

theorem bind {f : α → Parser γ} {g : β → Parser δ} (h : Tracks k R p q)
    (hf : ∀ a b, R a b → Tracks k S (f a) (g b)) : Tracks k S (p >>= f) (q >>= g) := by
  intro us ts c us' hus hts hok
  obtain ⟨a, mid, hp, hrest⟩ := bind_eq_ok.mp hok
  obtain ⟨b, mid', hq, hab, hmid, hlength⟩ := h us ts a mid hus hts hp
  obtain ⟨d, ts', hg, hcd, hts', hlength'⟩ :=
    hf a b hab mid mid' c us' hmid (hlength.trans hts) hrest
  exact ⟨d, ts', bind_eq_ok.mpr ⟨b, mid', hq, hg⟩, hcd, hts', hlength'.trans hlength⟩

theorem bindEq {p q : Parser α} {f : α → Parser γ} {g : α → Parser δ} (h : Tracks k Eq p q)
    (hf : ∀ a, Tracks k S (f a) (g a)) : Tracks k S (p >>= f) (q >>= g) := by
  refine h.bind ?_
  rintro a _ rfl
  exact hf a

theorem map {f : α → γ} {g : β → δ} (h : Tracks k R p q) (hS : ∀ a b, R a b → S (f a) (g b)) :
    Tracks k S (p >>= fun a => pure (f a)) (q >>= fun b => pure (g b)) :=
  h.bind fun a b hab => .ret (hS a b hab)

theorem mapEq {p q : Parser α} (h : Tracks k Eq p q) (f : α → γ) :
    Tracks k Eq (p >>= fun a => pure (f a)) (q >>= fun a => pure (f a)) :=
  h.bindEq fun _ => .ret rfl

theorem choosing {ι : Type} {choice? : TokenKind → Option ι} {f : Option ι → Parser α}
    {g : Option ι → Parser β} {l : Nat} (hchoice : Overlooks choice?) (hk : k ≤ l + 1)
    (hsome : ∀ c, Tracks l R (f (some c)) (g (some c))) (hnone : Tracks k R (f none) (g none)) :
    Tracks k R (Parser.take? choice? >>= f) (Parser.take? choice? >>= g) := by
  intro us ts a us' hus hts hok
  rcases take?_cases choice? us with hnext | ⟨u, us, c, rfl, hu⟩
  · rw [take?_bind_none hnext] at hok
    rw [take?_bind_none (hus.next hchoice hnext)]
    exact hnone us ts a us' hus hts hok
  · obtain ⟨t, ts, rfl, ht, hlater⟩ := hus.tail hchoice hu
    rw [take?_bind_some hu] at hok
    rw [take?_bind_some ht]
    obtain ⟨b, ts', hb, hab, hts', hlength⟩ :=
      hsome c us ts a us' hlater (Nat.le_of_succ_le_succ (hts.trans hk)) hok
    exact ⟨b, ts', hb, hab, hts', Nat.le_succ_of_le hlength⟩

theorem take? {choice? : TokenKind → Option α} (h : Overlooks choice?) :
    Tracks k Eq (take? choice?) (take? choice?) := by
  have htake : Tracks k Eq (Parser.take? choice? >>= fun found => pure found)
      (Parser.take? choice? >>= fun found => pure found) :=
    choosing h (Nat.le_succ k) (fun c => .ret rfl) (.ret rfl)
  rwa [bind_pure] at htake

theorem need {choice? : TokenKind → Option α} (what : String) (h : Overlooks choice?) :
    Tracks k Eq (need what choice?) (need what choice?) := by
  refine (take? h).bindEq fun found => ?_
  cases found with
  | some a => exact .ret rfl
  | none => exact .fail _

theorem accept {test : TokenKind → Bool}
    (h : Overlooks fun kind => if test kind then some () else none) :
    Tracks k Eq (accept test) (accept test) :=
  (take? h).mapEq _

theorem ifAccept {test : TokenKind → Bool} {p p' : Parser α} {q q' : Parser β} {l : Nat}
    (h : Overlooks fun kind => if test kind then some () else none) (hk : k ≤ l + 1)
    (hp : Tracks l R p q) (hq : Tracks k R p' q') :
    Tracks k R (do if ← Parser.accept test then p else p')
      (do if ← Parser.accept test then q else q') := by
  rw [accept_bind, accept_bind]
  exact choosing h hk (fun _ => hp) hq

end Tracks

section Loops

variable {step? : α → Parser (Option α)} {step?' : β → Parser (Option β)} {R : α → β → Prop}

/-- More tries than there are tokens make no difference. -/
theorem extendAtMost_eq (hprogress : ∀ a ts b rest, step? a ts = .ok (some b, rest) →
      rest.length < ts.length)
    (hend : ∀ a, step? a [] = .ok (none, [])) {n m : Nat} (hn : ts.length ≤ n)
    (hm : ts.length ≤ m) (a : α) : extendAtMost step? n a ts = extendAtMost step? m a ts := by
  have hnil (n : Nat) (a : α) : extendAtMost step? n a [] = .ok (a, []) := by
    cases n with
    | zero => rfl
    | succ n =>
      rw [extendAtMost, bind_of_ok (hend a)]
      rfl
  induction n generalizing ts m a with
  | zero => rw [List.length_eq_zero_iff.mp (Nat.le_zero.mp hn), hnil, hnil]
  | succ n ih =>
    cases m with
    | zero => rw [List.length_eq_zero_iff.mp (Nat.le_zero.mp hm), hnil, hnil]
    | succ m =>
      rw [extendAtMost, extendAtMost]
      cases hstep : step? a ts with
      | error s => rw [bind_of_error hstep, bind_of_error hstep]
      | ok found =>
        rw [bind_of_ok hstep, bind_of_ok hstep]
        obtain ⟨found, rest⟩ := found
        cases found with
        | none => rfl
        | some b =>
          have hlength := hprogress a ts b rest hstep
          have hn : rest.length ≤ n := by omega
          have hm : rest.length ≤ m := by omega
          exact ih hn hm b

theorem Tracks.extend
    (hstep : ∀ a b, R a b → Tracks k (Option.Rel R) (step? a) (step?' b))
    (hprogress : ∀ a ts b rest, step?' a ts = .ok (some b, rest) → rest.length < ts.length)
    (hend : ∀ a, step?' a [] = .ok (none, [])) {a : α} {b : β} (h : R a b) :
    Tracks k R (extend step? a) (extend step?' b) := by
  have hmost (n : Nat) : ∀ a b, R a b →
      Tracks k R (extendAtMost step? n a) (extendAtMost step?' n b) := by
    induction n with
    | zero => exact fun a b hab => .ret hab
    | succ n ih =>
      intro a b hab
      refine (hstep a b hab).bind fun found found' hfound => ?_
      cases hfound with
      | some hfound => exact ih _ _ hfound
      | none => exact .ret hab
  intro us ts c us' hus hts hok
  rw [Parser.extend, get_bind] at hok
  obtain ⟨d, ts', hd, hcd, hts', hlength⟩ := hmost us.length a b h us ts c us' hus hts hok
  refine ⟨d, ts', ?_, hcd, hts', hlength⟩
  rw [Parser.extend, get_bind, ← hd]
  exact extendAtMost_eq hprogress hend (Nat.le_refl _) hus.length b

end Loops

section Grammar

variable {i j : Parser Expr}

theorem overlooks_operatorAt (level : Nat) : Overlooks (operatorAt level) := by
  refine ⟨operatorAt_of_stops (stops_of_none rfl), fun kind hkind => ?_⟩
  refine operatorAt_of_stops (stops_of_none ?_)
  cases kind with
  | int | float => rfl
  | _ => exact hkind.elim

theorem overlooks_symbol {s : Symbol} (hs : s ≠ .leftParen) :
    Overlooks fun kind => if kind.isSymbol s then some () else none :=
  overlooks_test (by simpa [TokenKind.isSymbol] using hs) (fun _ => rfl) fun _ => rfl

theorem overlooks_word (word : String) :
    Overlooks fun kind => if kind.isWord word then some () else none :=
  overlooks_test rfl (fun _ => rfl) fun _ => rfl

theorem chain_tracks {p q : Parser Expr} (h : Tracks k Eq p q) (hq : Shortens q) (level : Nat) :
    Tracks k Eq (chain p (operatorAt level)) (chain q (operatorAt level)) := by
  have hsome (left : Expr) (op : Operator) : Tracks k (Option.Rel Eq)
      (do return some (Expr.binary op left (← p))) (do return some (Expr.binary op left (← q))) :=
    h.bindEq fun right => .ret (.some rfl)
  refine h.bindEq fun first => .extend ?_ ?_ ?_ rfl
  · rintro left _ rfl
    refine (Tracks.take? (overlooks_operatorAt level)).bindEq fun op => ?_
    cases op with
    | some op => exact hsome left op
    | none => exact .ret .none
  · intro left ts e rest hok
    refine take?_progress ?_ ?_ hok
    · exact fun op => hq.bind fun right => .ret _
    · rfl
  · exact fun _ => rfl

theorem member_tracks (base : Expr) {u : Token} {e : Expr} {us' : List Token}
    (hu : u.kind.isSymbol .dot) (hus : Unbracketed (u :: us) ts)
    (hok : member base (u :: us) = .ok (e, us')) : ∃ ts', member base ts = .ok (e, ts') ∧
      Unbracketed us' ts' ∧ ts'.length ≤ ts.length := by
  cases hus with
  | drop hleft =>
    rw [hleft] at hu
    cases hu
  | @keep _ t _ ts hkind hlater =>
    cases hlater with
    | nil => cases hok
    | @drop left _ _ _ _ _ hleft =>
      obtain ⟨kind, span⟩ := left
      obtain rfl : kind = .symbol .leftParen := hleft
      cases hok
    | @keep u' t' us ts hkind' hlater' =>
      obtain ⟨kind, span⟩ := u'
      obtain ⟨kind', span'⟩ := t'
      obtain rfl : kind = kind' := hkind'
      have hlength : ts.length ≤ (t :: ⟨kind, span'⟩ :: ts).length :=
        (Nat.le_succ _).trans (Nat.le_succ _)
      cases kind with
      | ident key =>
        cases hok
        exact ⟨ts, rfl, hlater', hlength⟩
      | int n =>
        cases hok
        exact ⟨ts, rfl, hlater', hlength⟩
      | _ => cases hok

theorem indexStep_tracks (h : Tracks k Eq i j) (base : Expr) :
    Tracks (k + 1) (Option.Rel Eq) (indexStep? i base) (indexStep? j base) := by
  refine .ifAccept (overlooks_symbol (by decide)) (Nat.le_refl _) ?_ (.ret .none)
  refine h.bindEq fun key => (Tracks.need _ (overlooks_symbol (by decide))).bindEq fun _ => ?_
  exact .ret (.some rfl)

theorem pathStep_tracks (h : Tracks k Eq i j) (base : Expr) :
    Tracks (k + 1) (Option.Rel Eq) (pathStep? i base) (pathStep? j base) := by
  intro us ts found us' hus hts hok
  rcases accept_cases (TokenKind.isSymbol .dot) us with hnext | ⟨u, us, rfl, hu⟩
  · have hnext' := hus.next_test (overlooks_symbol (by decide)) hnext
    rw [pathStep?_of_not_dot us hnext] at hok
    rw [pathStep?_of_not_dot ts hnext']
    exact indexStep_tracks h base us ts found us' hus hts hok
  · rw [pathStep?_of_dot base hu] at hok
    obtain ⟨e, mid, hmember, hret⟩ := bind_eq_ok.mp hok
    cases hret
    obtain ⟨ts', hmember', hts', hlength⟩ := member_tracks base hu hus hmember
    obtain ⟨t, ts, rfl, ht, -⟩ := hus.tail (c := ()) (overlooks_symbol (s := .dot) (by decide))
      (if_pos hu)
    have ht : t.kind.isSymbol .dot := (Option.ite_none_right_eq_some.mp ht).1
    refine ⟨some e, ts', ?_, .some rfl, hts', hlength⟩
    rw [pathStep?_of_dot base ht, bind_of_ok hmember']
    rfl

/-- A number before a closing bracket is read as that number. -/
def ReadsNumbers (i : Parser Expr) : Prop :=
  ∀ u right us e us', u.kind.IsNumber → right.kind = .symbol .rightParen →
    i (u :: right :: us) = .ok (e, us') → atom? u.kind = some e ∧ us' = right :: us

theorem primary_of_not_paren (h : Next (fun kind => kind.isSymbol .leftParen = false) ts) :
    primary i ts = need "a value" atom? ts := by
  rw [primary, acceptSymbol, accept_bind_false h]
  rfl

theorem primary_token {t : Token} {e : Expr} (h : atom? t.kind = some e) :
    primary i (t :: ts) = .ok (e, ts) :=
  primary_atom (P := fun _ => True) h [t] ts rfl fun _ _ => trivial

theorem primary_of_paren {t : Token} (h : t.kind.isSymbol .leftParen) :
    primary i (t :: ts) = grouped i ts := by
  rw [primary_eq, acceptSymbol, accept_bind_true h]
  rfl

theorem grouped_tracks (h : Tracks k Eq i j) : Tracks k Eq (grouped i) (grouped j) := by
  have hclose : Overlooks fun kind => if kind.isSymbol .rightParen then some () else none :=
    overlooks_symbol (by decide)
  refine h.bindEq fun first => .ifAccept (overlooks_symbol (by decide)) (Nat.le_succ k) ?_ ?_
  · exact h.bindEq fun last => (Tracks.need _ hclose).mapEq _
  · exact (Tracks.need _ hclose).mapEq _

/-- A number with the closing bracket right behind it. -/
theorem grouped_number (hnumbers : ReadsNumbers i) {u right : Token} {e : Expr} {rest : List Token}
    (hnumber : u.kind.IsNumber) (hright : right.kind = .symbol .rightParen)
    (h : grouped i (u :: right :: us) = .ok (e, rest)) : atom? u.kind = some e ∧ rest = us := by
  have hdots : right.kind.isSymbol .dotDot = false := by rw [hright]; rfl
  have hclose : needSymbol "')'" .rightParen (right :: us) = .ok ((), us) :=
    needSymbol_reads (P := fun _ => True) _ _ [right] us (by rw [← hright]; rfl)
      fun _ _ => trivial
  obtain ⟨first, mid, hi, hrest⟩ := bind_eq_ok.mp h
  obtain ⟨hatom, rfl⟩ := hnumbers u right us first mid hnumber hright hi
  rw [acceptSymbol, accept_bind_false (next_cons hdots)] at hrest
  simp only [Bool.false_eq_true, if_false] at hrest
  rw [bind_of_ok hclose] at hrest
  cases hrest
  exact ⟨hatom, rfl⟩

theorem primary_tracks (hnumbers : ReadsNumbers i) (h : Tracks k Eq i j) :
    Tracks (k + 1) Eq (primary i) (primary j) := by
  intro us ts e us' hus hts hok
  cases hus with
  | nil => cases hok
  | @keep u t us ts hkind hlater =>
    cases hparen : t.kind.isSymbol .leftParen with
    | true =>
      have hu : u.kind.isSymbol .leftParen = true := by rw [hkind, hparen]
      rw [primary_of_paren hu] at hok
      rw [primary_of_paren hparen]
      obtain ⟨e', ts', he, hee, hts', hlength⟩ :=
        grouped_tracks h us ts e us' hlater (Nat.le_of_succ_le_succ hts) hok
      exact ⟨e', ts', he, hee, hts', Nat.le_succ_of_le hlength⟩
    | false =>
      have hu : u.kind.isSymbol .leftParen = false := by rw [hkind, hparen]
      rw [primary_of_not_paren (next_cons hu), need] at hok
      cases hatom : atom? u.kind with
      | none =>
        rw [take?_bind_none (next_cons hatom)] at hok
        cases hok
      | some value =>
        rw [take?_bind_some hatom] at hok
        cases hok
        exact ⟨_, ts, primary_token (hkind ▸ hatom), rfl, hlater, Nat.le_succ _⟩
  | @drop left u right t us ts hleft hright hnumber hkind hlater =>
    rw [primary_of_paren (isSymbol_eq_true.mpr hleft)] at hok
    obtain ⟨hatom, rfl⟩ := grouped_number hnumbers hnumber hright hok
    exact ⟨_, ts, primary_token (hkind ▸ hatom), rfl, hlater, Nat.le_succ _⟩

theorem path_tracks (hnumbers : ReadsNumbers i) (h : Tracks k Eq i j) (hj : Shortens j) :
    Tracks (k + 1) Eq (path i) (path j) := by
  refine (primary_tracks hnumbers h).bindEq fun first => .extend ?_ (pathStep_progress hj) ?_ rfl
  · rintro base _ rfl
    exact pathStep_tracks h base
  · exact fun _ => rfl

theorem sum_tracks (hnumbers : ReadsNumbers i) (h : Tracks k Eq i j)
    (hj : Discharges k j Goal.expression) :
    Tracks (k + 1) Eq (sum i) (sum j) :=
  chain_tracks (chain_tracks (path_tracks hnumbers h hj.shortens) (path_discharges hj).shortens 5)
    (chain_discharges 5 (path_discharges hj) rfl).shortens 4

theorem comparison_tracks (hnumbers : ReadsNumbers i) (h : Tracks k Eq i j)
    (hj : Discharges k j Goal.expression) : Tracks (k + 1) Eq (comparison i) (comparison j) := by
  refine (sum_tracks hnumbers h hj).bindEq fun left => ?_
  refine (Tracks.take? (overlooks_operatorAt 3)).bindEq fun op => ?_
  cases op with
  | some op => exact (sum_tracks hnumbers h hj).mapEq _
  | none => exact .ret rfl

theorem negation_tracks (hnumbers : ReadsNumbers i) (h : Tracks k Eq i j)
    (hj : Discharges k j Goal.expression) : Tracks (k + 1) Eq (negation i) (negation j) := by
  have hmarks : Tracks (k + 1) Eq (extend notStep? 0) (extend notStep? 0) := by
    refine .extend ?_ notStep_progress (fun _ => rfl) rfl
    rintro n _ rfl
    refine (Tracks.accept (overlooks_word "not")).bindEq fun accepted => .ret ?_
    cases accepted <;> constructor
    rfl
  exact hmarks.bindEq fun marks => (comparison_tracks hnumbers h hj).mapEq _

theorem disjunction_tracks (hnumbers : ReadsNumbers i) (h : Tracks k Eq i j)
    (hj : Discharges k j Goal.expression) : Tracks (k + 1) Eq (disjunction i) (disjunction j) :=
  chain_tracks (chain_tracks (negation_tracks hnumbers h hj) (negation_discharges hj).shortens 1)
    (chain_discharges 1 (negation_discharges hj) rfl).shortens 0

theorem nested_readsNumbers (n : Nat) : ReadsNumbers (nested n) := by
  intro u right us e us' hnumber hright hok
  cases n with
  | zero => cases hok
  | succ n =>
    obtain ⟨value, hatom⟩ : ∃ value, atom? u.kind = some value := by
      cases hu : u.kind with
      | int n => exact ⟨_, rfl⟩
      | float x => exact ⟨_, rfl⟩
      | _ =>
        rw [hu] at hnumber
        exact hnumber.elim
    have hbegins : BeginsAt (nested n) 6 [u.kind] value :=
      ContinuesAt.primary (primary_atom hatom)
    have hread : ReadsAt (nested n) 0 [u.kind] value := by
      refine (hbegins.of_le (Nat.zero_le 6) (Nat.le_refl 6) fun _ => ?_).readsAt (Nat.zero_le 6)
      have hnot : u.kind.isWord "not" = false := by
        cases hu : u.kind with
        | ident =>
          rw [hu] at hnumber
          exact hnumber.elim
        | _ => rfl
      exact hnot
    have hstops : Next (Stops 0) (right :: us) := next_cons (by rw [hright]; exact stops_of_none rfl)
    have hvalue := hread [u] (right :: us) rfl hstops
    have heq : nested (n + 1) (u :: right :: us) = .ok (value, right :: us) := hvalue
    rw [hok] at heq
    cases heq
    exact ⟨hatom, rfl⟩

/-- As many tokens as a parser may nest brackets are read as with brackets around numbers. -/
theorem nested_tracks (n k : Nat) : Tracks k Eq (nested n) (nested k) := by
  induction k generalizing n with
  | zero =>
    intro us ts e us' hus hts hok
    obtain rfl := List.length_eq_zero_iff.mp (Nat.le_zero.mp hts)
    cases hus
    cases n <;> cases hok
  | succ k ih =>
    cases n with
    | zero => exact .fail _
    | succ n => exact disjunction_tracks (nested_readsNumbers n) (ih n) (nested_discharges k)

section Filters

variable {j : Parser Expr}

theorem unnamed_of_next {label : String} {span : Span}
    (h : Next (fun kind => kind.isSymbol .colon = false) ts) :
    namedArgument? (⟨.ident label, span⟩ :: ts) = none := by
  unfold namedArgument?
  split
  · rename_i hts
    cases hts
    have hcolon : TokenKind.isSymbol .colon (.symbol .colon) = false := h _ rfl
    cases hcolon
  · rfl

theorem named_of_colon {label : String} {span : Span} {t : Token} (h : t.kind.isSymbol .colon) :
    namedArgument? (⟨.ident label, span⟩ :: t :: ts) = some (label, ts) := by
  obtain ⟨kind, span'⟩ := t
  obtain rfl : kind = .symbol .colon := isSymbol_eq_true.mp h
  rfl

/-- A name and a colon stand outside of brackets. -/
theorem Unbracketed.named (h : Unbracketed us ts) :
    (namedArgument? us = none ∧ namedArgument? ts = none) ∨
      ∃ label later later', namedArgument? us = some (label, later) ∧
        namedArgument? ts = some (label, later') ∧ Unbracketed later later' := by
  cases h with
  | nil => exact .inl ⟨rfl, rfl⟩
  | @drop left u right t us ts hleft hright hnumber hkind hlater =>
    obtain ⟨kind, span⟩ := left
    obtain ⟨kind', span'⟩ := t
    obtain rfl : kind = .symbol .leftParen := hleft
    refine .inl ⟨rfl, ?_⟩
    rw [hkind] at hnumber
    cases kind' with
    | int | float => rfl
    | _ => exact hnumber.elim
  | @keep u t us ts hkind hlater =>
    obtain ⟨kind, span⟩ := u
    obtain ⟨kind', span'⟩ := t
    obtain rfl : kind = kind' := hkind
    cases kind with
    | ident label =>
      have hcolon : Overlooks fun kind => if kind.isSymbol .colon then some () else none :=
        overlooks_symbol (by decide)
      rcases accept_cases (TokenKind.isSymbol .colon) us with hnext | ⟨u, us, rfl, hu⟩
      · exact .inl ⟨unnamed_of_next hnext, unnamed_of_next (hlater.next_test hcolon hnext)⟩
      · obtain ⟨t, ts, rfl, ht, hlater⟩ := hlater.tail (c := ()) hcolon (if_pos hu)
        have ht : t.kind.isSymbol .colon := (Option.ite_none_right_eq_some.mp ht).1
        exact .inr ⟨label, us, ts, named_of_colon hu, named_of_colon ht, hlater⟩
    | _ => exact .inl ⟨rfl, rfl⟩

theorem argument_tracks (h : Tracks k Eq i j) (before : Arguments) :
    Tracks k Eq (argument i before) (argument j before) := by
  intro us ts a us' hus hts hok
  rcases hus.named with ⟨hnone, hnone'⟩ | ⟨label, later, later', hnamed, hnamed', hlater⟩
  · rw [argument_of_positional hnone] at hok
    rw [argument_of_positional hnone']
    have hpositional : Tracks k Eq (positional i before) (positional j before) := by
      unfold positional
      split
      · exact h.mapEq _
      · exact .fail _
    exact hpositional us ts a us' hus hts hok
  · rw [argument_of_named hnamed] at hok
    rw [argument_of_named hnamed']
    have hlength := namedArgument?_length hnamed'
    obtain ⟨b, ts', hb, hab, hts', hlength'⟩ :=
      h.mapEq _ later later' a us' hlater (hlength.trans hts) hok
    exact ⟨b, ts', hb, hab, hts', hlength'.trans hlength⟩

theorem arguments_tracks (h : Tracks k Eq i j) (hj : Discharges k j Goal.expression) :
    Tracks k Eq (arguments i) (arguments j) := by
  have hcomma : Overlooks fun kind => if kind.isSymbol .comma then some () else none :=
    overlooks_symbol (by decide)
  refine .ifAccept (overlooks_symbol (by decide)) (Nat.le_succ k) ?_ (.ret rfl)
  refine (argument_tracks h ([], [])).bindEq fun first => .extend ?_ ?_ (fun _ => rfl) rfl
  · rintro before _ rfl
    refine .ifAccept hcomma (Nat.le_succ k) ?_ (.ret .none)
    exact (argument_tracks h before).bindEq fun a => .ret (.some rfl)
  · intro before ts a rest hok
    refine ifAccept_progress ?_ (none_progress a) hok
    exact (argument_shortens hj.shortens before).bind fun a => .ret _

/-- Two calls that differ in their places at most. -/
def SameCall (c d : FilterCall) : Prop := c.unplaced = d.unplaced

theorem name_tracks (what : String) : Tracks k Eq (name what) (name what) := by
  refine .need what ⟨rfl, fun kind hkind => ?_⟩
  cases kind with
  | int | float => rfl
  | _ => exact hkind.elim

theorem filterCall_tracks (h : Tracks k Eq i j) (hj : Discharges k j Goal.expression) :
    Tracks k SameCall (filterCall i) (filterCall j) := by
  refine Tracks.get.bind fun us ts _ => (name_tracks _).bindEq fun filter => ?_
  exact (arguments_tracks h hj).bindEq fun a => Tracks.get.bind fun _ _ _ => .ret rfl

/-- Two expressions that differ in the places of their filters at most. -/
def SameExpr (e f : Expr) : Prop := e.unplaced = f.unplaced

theorem pipeline_tracks (h : Tracks k Eq i j) (hj : Discharges k j Goal.expression) :
    Tracks k SameExpr (pipeline i) (pipeline j) := by
  have hcalls : Tracks k (fun cs ds : List FilterCall =>
        cs.map FilterCall.unplaced = ds.map FilterCall.unplaced)
      (extend (callStep? i) []) (extend (callStep? j) []) := by
    refine .extend ?_ ?_ (fun _ => rfl) rfl
    · intro cs ds hcs
      refine .ifAccept (overlooks_symbol (by decide)) (Nat.le_succ k) ?_ (.ret .none)
      refine (filterCall_tracks h hj).bind fun c d hc => .ret (.some ?_)
      have hc : c.unplaced = d.unplaced := hc
      rw [List.map_append, List.map_append, hcs, List.map_singleton, List.map_singleton, hc]
    · intro calls ts more rest hok
      refine ifAccept_progress ?_ (none_progress more) hok
      exact (filterCall_discharges hj).shortens.bind fun call => .ret _
  exact h.bindEq fun base => hcalls.map fun cs ds hcs => piped_unplaced hcs

end Filters

section Statements

variable (hnumbers : ReadsNumbers i) (h : Tracks k Eq i j) (hj : Discharges k j Goal.expression)
include hnumbers h hj

omit h hj hnumbers in
theorem symbol_tracks (what : String) {s : Symbol} (hs : s ≠ .leftParen) :
    Tracks k Eq (needSymbol what s) (needSymbol what s) := .need what (overlooks_symbol hs)

theorem path_tracks_within : Tracks k Eq (path i) (path j) := fun us ts e us' hus hts =>
  path_tracks hnumbers h hj.shortens us ts e us' hus (Nat.le_succ_of_le hts)

theorem sum_tracks_within : Tracks k Eq (sum i) (sum j) := fun us ts e us' hus hts =>
  sum_tracks hnumbers h hj us ts e us' hus (Nat.le_succ_of_le hts)

theorem bounded_tracks (what : String) (next : Expr → LoopModifiers) :
    Tracks k (Option.Rel Eq)
      (do needSymbol what .colon; return some (next (← path i)))
      (do needSymbol what .colon; return some (next (← path j))) :=
  (symbol_tracks what (by decide)).bindEq fun _ =>
    (path_tracks_within hnumbers h hj).bindEq fun e => .ret (.some rfl)

theorem modifierStep_tracks (m : LoopModifiers) :
    Tracks k (Option.Rel Eq) (modifierStep? i m) (modifierStep? j m) := by
  have hmodifier : Tracks k (Option.Rel Eq) (modifier? i m) (modifier? j m) := by
    refine .ifAccept (overlooks_word _) (Nat.le_succ k) (.ret (.some rfl)) ?_
    refine .ifAccept (overlooks_word _) (Nat.le_succ k) (bounded_tracks hnumbers h hj _ _) ?_
    exact .ifAccept (overlooks_word _) (Nat.le_succ k) (bounded_tracks hnumbers h hj _ _)
      (.ret .none)
  refine hmodifier.bind fun found found' hfound => ?_
  cases hfound with
  | none => exact .ret .none
  | some hnext =>
    cases hnext
    have hcomma : Tracks k Eq (discard (acceptSymbol .comma)) (discard (acceptSymbol .comma)) :=
      (Tracks.accept (overlooks_symbol (by decide))).mapEq _
    exact hcomma.bindEq fun _ => .ret (.some rfl)

theorem loop_tracks : Tracks k Eq (loop i) (loop j) := by
  refine (name_tracks _).bindEq fun item => ?_
  refine (Tracks.need _ (overlooks_word _)).bindEq fun _ => ?_
  refine (path_tracks_within hnumbers h hj).bindEq fun source => .mapEq (.extend ?_ ?_ ?_ rfl) _
  · rintro m _ rfl
    exact modifierStep_tracks hnumbers h hj m
  · exact modifierStep_progress hj
  · exact fun _ => rfl

omit h hj hnumbers in
theorem separated_tracks {p q : Parser Expr} (h : Tracks k Eq p q) (hq : Shortens q)
    (isSeparator : TokenKind → Bool)
    (hseparator : Overlooks fun kind => if isSeparator kind then some () else none) (first : Expr) :
    Tracks k Eq (separated p isSeparator first) (separated q isSeparator first) := by
  refine .extend ?_ ?_ (fun _ => rfl) rfl
  · rintro items _ rfl
    exact .ifAccept hseparator (Nat.le_succ k) (h.bindEq fun e => .ret (.some rfl)) (.ret .none)
  · intro items ts more rest hok
    exact ifAccept_progress (hq.bind fun e => .ret _) (none_progress more) hok

omit hnumbers in
theorem cycle_tracks : Tracks k Eq (cycle i) (cycle j) := by
  have hitems := separated_tracks h hj.shortens (TokenKind.isSymbol .comma)
    (overlooks_symbol (by decide))
  refine h.bindEq fun first => .ifAccept (overlooks_symbol (by decide)) (Nat.le_succ k) ?_ ?_
  · exact h.bindEq fun e => (hitems e).mapEq _
  · exact (hitems first).mapEq _

theorem when_tracks : Tracks k Eq (when i) (when j) := by
  have hsum := sum_tracks_within hnumbers h hj
  refine hsum.bindEq fun first =>
    .mapEq (separated_tracks hsum (sum_discharges hj).shortens _ ?_ first) _
  exact overlooks_test rfl (fun _ => rfl) fun _ => rfl

theorem subject_tracks : Tracks k Eq (subject? i) (subject? j) := by
  refine .ifAccept (overlooks_word _) (Nat.le_succ k) ?_ (.ret rfl)
  refine (path_tracks_within hnumbers h hj).bindEq fun e => ?_
  exact .ifAccept (overlooks_word _) (Nat.le_succ k) ((name_tracks _).mapEq _) (.ret rfl)

omit hnumbers hj in
theorem parameter_tracks (bindings : List (String × Expr)) :
    Tracks k (Option.Rel Eq) (parameter? i bindings) (parameter? j bindings) := by
  have hcomma : Tracks k Eq (discard (acceptSymbol .comma)) (discard (acceptSymbol .comma)) :=
    (Tracks.accept (overlooks_symbol (by decide))).mapEq _
  refine hcomma.bindEq fun _ => Tracks.get.bind fun us ts hus => ?_
  rw [hus.isEmpty]
  split
  · exact .ret .none
  · refine (name_tracks _).bindEq fun label => (symbol_tracks _ (by decide)).bindEq fun _ => ?_
    exact h.bindEq fun e => .ret (.some rfl)

theorem inclusion_tracks : Tracks k Eq (inclusion i) (inclusion j) := by
  refine (path_tracks_within hnumbers h hj).bindEq fun template => ?_
  refine (subject_tracks hnumbers h hj).bindEq fun subject => .mapEq (.extend ?_ ?_ ?_ rfl) _
  · rintro bindings _ rfl
    exact parameter_tracks h bindings
  · exact parameter_progress hj
  · exact fun _ => rfl

/-- Two statements that differ in the places of filters at most. -/
def SameStatement (s t : Statement) : Prop := s.unplaced = t.unplaced

omit hnumbers h hj in
theorem Tracks.same {p q : Parser Statement} (h : Tracks k Eq p q) :
    Tracks k SameStatement p q := by
  intro us ts s us' hus hts hok
  obtain ⟨_, ts', hq, rfl, hrest⟩ := h us ts s us' hus hts hok
  exact ⟨s, ts', hq, rfl, hrest⟩

theorem statement_tracks (production : Production) :
    Tracks k SameStatement (statement i production) (statement j production) := by
  have hpipeline := pipeline_tracks h hj
  cases production with
  | expression => exact hpipeline.map fun e f hef => congrArg Statement.expression hef
  | assignment =>
    refine (name_tracks _).bindEq fun target => (symbol_tracks _ (by decide)).bindEq fun _ => ?_
    exact hpipeline.map fun e f hef => congrArg (Statement.assignment target) hef
  | loop => exact (loop_tracks hnumbers h hj).same
  | cycle => exact (cycle_tracks h hj).same
  | when => exact (when_tracks hnumbers h hj).same
  | «include» => exact (inclusion_tracks hnumbers h hj).same

end Statements

end Grammar

theorem whole_tracks {R : α → β → Prop} {p : Parser α} {q : Parser β} (h : Tracks k R p q) :
    Tracks k R (whole p) (whole q) := by
  refine h.bind fun a b hab => Tracks.get.bind fun us ts hus => ?_
  rw [hus.isEmpty]
  split
  · exact .ret hab
  · exact .fail _

end Stencil.Parser
