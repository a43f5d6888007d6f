import Mathlib
import Stencil.Expr.Parser

/-!
# Laws of parsers

What a parser makes of tokens of given kinds, whatever comes after them, as long as the next kind is
one at which it stops. The laws follow the ways in which parsers are put together.
-/
namespace Stencil.Parser

variable {α β : Type} {ts rest : List Token} {t : Token} {kind : TokenKind}
  {kinds later : List TokenKind} {P Q : TokenKind → Prop}

/-- What holds of the next token, if there is one. -/
def Next (P : TokenKind → Prop) (ts : List Token) : Prop := ∀ t ∈ ts.head?, P t.kind

/-- What holds of the first of some kinds, or of whatever may come after them if there are none. -/
def Leads (P : TokenKind → Prop) (kinds : List TokenKind) (Q : TokenKind → Prop) : Prop :=
  match kinds with
  | [] => ∀ kind, Q kind → P kind
  | kind :: _ => P kind

theorem leads_true : Leads (fun _ => True) kinds Q := by
  cases kinds with
  | nil => exact fun _ _ => trivial
  | cons kind kinds => trivial

theorem Leads.mono {P' : TokenKind → Prop} (h : Leads P kinds Q) (hP : ∀ kind, P kind → P' kind) :
    Leads P' kinds Q := by
  cases kinds with
  | nil => exact fun kind hkind => hP kind (h kind hkind)
  | cons kind kinds => exact hP kind h

theorem Leads.next (h : Leads P kinds Q) (hts : ts.map Token.kind = kinds) (hrest : Next Q rest) :
    Next P (ts ++ rest) := by
  cases ts with
  | nil =>
    cases hts
    exact fun t ht => h t.kind (hrest t ht)
  | cons t ts =>
    cases hts
    intro t' ht'
    cases ht'
    exact h

/-- A parser makes `a` of tokens of the given kinds before a kind at which it stops. -/
def Reads (p : Parser α) (kinds : List TokenKind) (a : α) (P : TokenKind → Prop) : Prop :=
  ∀ ts rest, ts.map Token.kind = kinds → Next P rest → p (ts ++ rest) = .ok (a, rest)

theorem bind_of_ok {p : Parser α} {a : α} (h : p ts = .ok (a, rest)) (f : α → Parser β) :
    (p >>= f) ts = f a rest := by
  change (p ts >>= fun found => f found.1 found.2) = _
  rw [h]
  rfl

theorem bind_of_eq {p q : Parser α} {ts' : List Token} (h : p ts = q ts') (f : α → Parser β) :
    (p >>= f) ts = (q >>= f) ts' := by
  change (p ts >>= fun found => f found.1 found.2) = _
  rw [h]
  rfl

namespace Reads

variable {a : α} {b : β} {p : Parser α}

theorem weaken (h : Reads p kinds a P) (hQ : ∀ kind, Q kind → P kind) : Reads p kinds a Q :=
  fun ts rest hts hrest => h ts rest hts fun t ht => hQ t.kind (hrest t ht)

theorem ret (a : α) (P : TokenKind → Prop) : Reads (pure a) [] a P := by
  intro ts rest hts _
  rw [List.map_eq_nil_iff.mp hts]
  rfl

theorem bind {f : α → Parser β} (hp : Reads p kinds a P) (hlead : Leads P later Q)
    (hf : Reads (f a) later b Q) : Reads (p >>= f) (kinds ++ later) b Q := by
  intro ts rest hts hrest
  obtain ⟨ts, ts', rfl, hkinds, hlater⟩ := List.map_eq_append_iff.mp hts
  rw [List.append_assoc, bind_of_ok (hp ts (ts' ++ rest) hkinds (hlead.next hlater hrest))]
  exact hf ts' rest hlater hrest

/-- Two parsers that agree wherever the tokens begin in some way. -/
theorem of_eq {p q : Parser α} (h : ∀ ts, Next Q ts → p ts = q ts) (hlead : Leads Q kinds P)
    (hq : Reads q kinds a P) : Reads p kinds a P := by
  intro ts rest hts hrest
  rw [h (ts ++ rest) (hlead.next hts hrest)]
  exact hq ts rest hts hrest

/-- What is made of the result has no tokens of its own. -/
theorem map {f : α → β} (hp : Reads p kinds a P) :
    Reads (p >>= fun a => pure (f a)) kinds (f a) P := by
  have h : Reads (p >>= fun a => pure (f a)) (kinds ++ []) (f a) P :=
    hp.bind (fun _ h => h) (Reads.ret (f a) P)
  rwa [List.append_nil] at h

end Reads

theorem take?_some {f : TokenKind → Option β} {b : β} (h : f kind = some b) :
    Reads (take? f) [kind] (some b) P := by
  intro ts rest hts _
  obtain ⟨t, ts, rfl, ht, hnil⟩ := List.map_eq_cons_iff.mp hts
  rw [List.map_eq_nil_iff.mp hnil]
  simp only [List.singleton_append, take?, ht, h]

theorem take?_none {f : TokenKind → Option β} :
    Reads (take? f) [] none fun kind => f kind = none := by
  intro ts rest hts hrest
  rw [List.map_eq_nil_iff.mp hts, List.nil_append]
  cases rest with
  | nil => rfl
  | cons t rest =>
    have ht : f t.kind = none := hrest t rfl
    simp only [take?, ht]

theorem accept_true {test : TokenKind → Bool} (h : test kind) :
    Reads (accept test) [kind] true P := by
  have htake : Reads (take? fun kind => if test kind then some () else none) [kind] (some ()) P :=
    take?_some (by simp [h])
  exact htake.map

theorem accept_false {test : TokenKind → Bool} :
    Reads (accept test) [] false fun kind => test kind = false := by
  have htake : Reads (take? fun kind => if test kind then some () else none) [] none
      fun kind => test kind = false := take?_none.weaken fun kind hkind => by simp [hkind]
  exact htake.map

theorem discard_reads {p : Parser α} {a : α} (h : Reads p kinds a P) :
    Reads (discard p) kinds () P :=
  h.map

/-- The way that is taken where a token is accepted. -/
theorem Reads.accepting {test : TokenKind → Bool} {p q : Parser α} {a : α} (h : test kind)
    (hp : Reads p later a Q) : Reads (do if ← accept test then p else q) (kind :: later) a Q :=
  Reads.bind (accept_true h) leads_true hp

/-- The way that is taken where no token is accepted. -/
theorem Reads.declining {test : TokenKind → Bool} {p q : Parser α} {a : α}
    (hlead : Leads (fun kind => test kind = false) later Q) (hq : Reads q later a Q) :
    Reads (do if ← accept test then p else q) later a Q :=
  Reads.bind accept_false hlead hq

theorem need_some {what : String} {f : TokenKind → Option β} {b : β} (h : f kind = some b) :
    Reads (need what f) [kind] b P := by
  have htake : Reads (take? f) [kind] (some b) P := take?_some h
  have hret : Reads (pure b : Parser β) [] b P := Reads.ret b P
  exact htake.bind (fun _ h => h) hret

theorem needSymbol_reads (what : String) (s : Symbol) :
    Reads (needSymbol what s) [.symbol s] () P := need_some (by simp [TokenKind.isSymbol])

theorem name_reads (what s : String) : Reads (name what) [.ident s] s P := need_some rfl

/-- A step applies, taking tokens each time, until it no longer does. -/
inductive Repeats (step? : α → Parser (Option α)) (P : TokenKind → Prop) :
    α → List TokenKind → α → Prop
  | done {a : α} (h : Reads (step? a) [] none P) : Repeats step? P a [] a
  | more {a b c : α} {kind : TokenKind} {kinds later : List TokenKind} {Q : TokenKind → Prop}
      (h : Reads (step? a) (kind :: kinds) (some b) Q) (hlead : Leads Q later P)
      (hlater : Repeats step? P b later c) : Repeats step? P a (kind :: kinds ++ later) c

theorem leads_flatMap {ι : Type} {mark : TokenKind} {print : ι → List TokenKind} {items : List ι}
    (hmark : P mark) (hlead : Leads P later Q) :
    Leads P (items.flatMap (fun item => mark :: print item) ++ later) Q := by
  cases items with
  | nil => exact hlead
  | cons item items => exact hmark

theorem leads_items {ι : Type} {mark : TokenKind} {print : ι → List TokenKind} {items : List ι}
    (hmark : P mark) (hlead : ∀ kind, Q kind → P kind) :
    Leads P (items.flatMap fun item => mark :: print item) Q := by
  have hitems : Leads P (items.flatMap (fun item => mark :: print item) ++ []) Q :=
    leads_flatMap hmark hlead
  rwa [List.append_nil] at hitems

/-- Each step takes one item behind a mark; what has been made depends on the items taken so far. -/
theorem Repeats.items {ι : Type} {step? : α → Parser (Option α)} (state : List ι → α)
    {mark : TokenKind} {print : ι → List TokenKind} {items taken : List ι} {b : α}
    (hstep : ∀ taken, ∀ item ∈ items,
      Reads (step? (state taken)) (mark :: print item) (some (state (taken ++ [item]))) Q)
    (hmark : Q mark) (hlead : Leads Q later P)
    (hlater : Repeats step? P (state (taken ++ items)) later b) :
    Repeats step? P (state taken) (items.flatMap (fun item => mark :: print item) ++ later) b := by
  induction items generalizing taken with
  | nil => rwa [List.append_nil] at hlater
  | cons item items ih =>
    have hread := hstep taken item List.mem_cons_self
    rw [List.append_cons] at hlater
    have hsteps := ih (fun taken item hitem => hstep taken item (List.mem_cons_of_mem _ hitem))
      hlater
    rw [List.flatMap_cons, List.append_assoc]
    exact .more hread (leads_flatMap hmark hlead) hsteps

theorem Repeats.extendAtMost {step? : α → Parser (Option α)} {a b : α}
    (h : Repeats step? P a kinds b) (hts : ts.map Token.kind = kinds) (hrest : Next P rest)
    {n : Nat} (hn : (ts ++ rest).length ≤ n) :
    extendAtMost step? n a (ts ++ rest) = .ok (b, rest) := by
  induction h generalizing ts n with
  | @done a h =>
    have hstep := h ts rest hts hrest
    have hnil := List.map_eq_nil_iff.mp hts
    rw [hnil, List.nil_append] at hstep hn ⊢
    cases n with
    | zero =>
      -- the bound is the number of the tokens, so that none are left for another step
      rw [List.length_eq_zero_iff.mp (Nat.le_zero.mp hn)]
      rfl
    | succ n =>
      rw [Parser.extendAtMost, bind_of_ok hstep]
      rfl
  | @more a b c kind kinds later Q h hlead hlater ih =>
    obtain ⟨ts, ts', rfl, hkinds, hlater⟩ := List.map_eq_append_iff.mp hts
    have hstep := h ts (ts' ++ rest) hkinds (hlead.next hlater hrest)
    have hlength := congrArg List.length hkinds
    simp only [List.length_append, List.length_map, List.length_cons] at hn hlength
    cases n with
    | zero => omega
    | succ n =>
      rw [List.append_assoc, Parser.extendAtMost, bind_of_ok hstep]
      refine ih hlater ?_
      rw [List.length_append]
      omega

theorem Repeats.reads {step? : α → Parser (Option α)} {a b : α} (h : Repeats step? P a kinds b) :
    Reads (extend step? a) kinds b P := by
  intro ts rest hts hrest
  have hget : (get : Parser (List Token)) (ts ++ rest) = .ok (ts ++ rest, ts ++ rest) := rfl
  rw [extend, bind_of_ok hget]
  exact h.extendAtMost hts hrest (Nat.le_refl _)

/-- A step that takes a single token. -/
theorem extend_cons {step? : α → Parser (Option α)} {a b : α}
    (h : step? a (t :: ts) = .ok (some b, ts)) :
    extend step? a (t :: ts) = extend step? b ts := by
  have hmore : extendAtMost step? (ts.length + 1) a (t :: ts)
      = extendAtMost step? ts.length b ts := by
    rw [extendAtMost, bind_of_ok h]
  exact hmore

/-- A parser makes `a` of tokens and then goes on with it, step by step. -/
def Continues (p : Parser α) (step? : α → Parser (Option α)) (kinds : List TokenKind) (a : α)
    (P : TokenKind → Prop) : Prop :=
  ∀ ⦃later b Q⦄, Repeats step? Q a later b → Leads P later Q → Reads p (kinds ++ later) b Q

namespace Continues

variable {p : Parser α} {step? : α → Parser (Option α)} {a b : α}

theorem first (h : Reads p kinds a P) :
    Continues (p >>= extend step?) step? kinds a P := fun _ _ _ hlater hlead =>
  h.bind hlead hlater.reads

theorem next (h : Continues p step? kinds a P) (hkind : P kind)
    (hstep : Reads (step? a) (kind :: later) (some b) P) :
    Continues p step? (kinds ++ kind :: later) b P := by
  intro later' c Q hlater hlead
  have hreads := h (.more hstep hlead hlater) hkind
  rwa [List.append_assoc]

theorem reads (h : Continues p step? kinds a P) (hstep : Reads (step? a) [] none Q)
    (hQ : ∀ kind, Q kind → P kind) : Reads p kinds a Q := by
  have hreads := h (.done hstep) hQ
  rwa [List.append_nil] at hreads

end Continues

section AtEnd

/-- No token comes next. -/
abbrev AtEnd : TokenKind → Prop := fun _ => False

theorem eq_nil_of_next (h : Next AtEnd ts) : ts = [] := by
  cases ts with
  | nil => rfl
  | cons t ts => exact (h t rfl).elim

theorem reads_atEnd {p : Parser α} {a : α} (h : p [] = .ok (a, [])) : Reads p [] a AtEnd := by
  intro ts rest hts hrest
  rw [List.map_eq_nil_iff.mp hts, eq_nil_of_next hrest]
  exact h

theorem leads_items_atEnd {ι : Type} {mark : TokenKind} {print : ι → List TokenKind}
    {items : List ι} (hmark : P mark) :
    Leads P (items.flatMap fun item => mark :: print item) AtEnd :=
  leads_items hmark fun _ h => h.elim

theorem reads_of_not_empty {p q : Parser α} {a : α} {kind : TokenKind}
    (h : Reads q (kind :: kinds) a P) :
    Reads (do if (← get).isEmpty then p else q) (kind :: kinds) a P := by
  intro ts rest hts hrest
  obtain ⟨t, ts', rfl, -, -⟩ := List.map_eq_cons_iff.mp hts
  exact h (t :: ts') rest hts hrest

end AtEnd

section ReadsTo

variable {γ δ : Type} {f : α → β} {b : β}

/-- A parser makes of the tokens something that a function takes to `b`. -/
def ReadsTo (f : α → β) (p : Parser α) (kinds : List TokenKind) (b : β) (P : TokenKind → Prop) :
    Prop :=
  ∀ ts rest, ts.map Token.kind = kinds → Next P rest →
    ∃ a, p (ts ++ rest) = .ok (a, rest) ∧ f a = b

theorem Reads.readsTo {p : Parser α} {a : α} (h : Reads p kinds a P) (f : α → β) :
    ReadsTo f p kinds (f a) P :=
  fun ts rest hts hrest => ⟨a, h ts rest hts hrest, rfl⟩

theorem Reads.bindTo {p : Parser γ} {q : γ → Parser α} {c : γ} (hp : Reads p kinds c P)
    (hlead : Leads P later Q) (hq : ReadsTo f (q c) later b Q) :
    ReadsTo f (p >>= q) (kinds ++ later) b Q := by
  intro ts rest hts hrest
  obtain ⟨ts, ts', rfl, hkinds, hlater⟩ := List.map_eq_append_iff.mp hts
  rw [List.append_assoc, bind_of_ok (hp ts (ts' ++ rest) hkinds (hlead.next hlater hrest))]
  exact hq ts' rest hlater hrest

theorem ReadsTo.map {p : Parser α} {g : α → γ} {h : γ → δ} {d : δ}
    (hp : ReadsTo f p kinds b P) (hg : ∀ a, f a = b → h (g a) = d) :
    ReadsTo h (p >>= fun a => pure (g a)) kinds d P := by
  intro ts rest hts hrest
  obtain ⟨a, hok, ha⟩ := hp ts rest hts hrest
  exact ⟨g a, by rw [bind_of_ok hok]; rfl, hg a ha⟩

end ReadsTo

end Stencil.Parser
