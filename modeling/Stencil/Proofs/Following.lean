import Mathlib
import Stencil.Proofs.Goals

/-!
# Parsers that follow goals

A parser follows goals if it succeeds where it has read what they ask for, and fails where the stack
of goals does, at the token that the stack is stuck at. The laws follow the ways in which parsers
are put together.
-/
namespace Stencil.Parser

open Goal

variable {α β : Type} {k j : Nat} {ts rest : List Token} {t : Token}

section Sequences

variable {p : Parser α} {f : α → Parser β} {b : β}

theorem bind_of_error {s : Stuck} (h : p ts = .error s) (f : α → Parser β) :
    (p >>= f) ts = .error s := by
  change (p ts >>= fun found => f found.1 found.2) = _
  rw [h]
  rfl

theorem bind_eq_ok :
    (p >>= f) ts = .ok (b, rest) ↔ ∃ a mid, p ts = .ok (a, mid) ∧ f a mid = .ok (b, rest) := by
  constructor
  · intro h
    cases hp : p ts with
    | error s => cases (bind_of_error hp f).symm.trans h
    | ok found => exact ⟨found.1, found.2, rfl, (bind_of_ok hp f).symm.trans h⟩
  · rintro ⟨a, mid, hp, hf⟩
    rw [bind_of_ok hp, hf]

theorem get_bind (f : List Token → Parser β) : (get >>= f) ts = f ts ts :=
  bind_of_ok (p := get) (a := ts) rfl f

theorem take?_bind_some {f : TokenKind → Option α} {g : Option α → Parser β} {a : α}
    (h : f t.kind = some a) : (take? f >>= g) (t :: ts) = g (some a) ts :=
  bind_of_ok (by simp only [take?, h]) g

theorem take?_bind_none {f : TokenKind → Option α} {g : Option α → Parser β}
    (h : Next (fun kind => f kind = none) ts) : (take? f >>= g) ts = g none ts :=
  bind_of_ok (take?_none [] ts rfl h) g

theorem accept_bind_true {test : TokenKind → Bool} {g : Bool → Parser β}
    (h : test t.kind = true) : (accept test >>= g) (t :: ts) = g true ts :=
  bind_of_ok ((accept_true (P := fun _ => True) h) [t] ts rfl fun _ _ => trivial) g

theorem accept_bind_false {test : TokenKind → Bool} {g : Bool → Parser β}
    (h : Next (fun kind => test kind = false) ts) : (accept test >>= g) ts = g false ts :=
  bind_of_ok (accept_false [] ts rfl h) g

/-- What is accepted is a token that is taken. -/
theorem accept_bind (test : TokenKind → Bool) (g : Bool → Parser β) : accept test >>= g =
    take? (fun kind => if test kind then some () else none) >>= fun found => g found.isSome := by
  simp only [accept, bind_assoc, pure_bind]

theorem next_nil {P : TokenKind → Prop} : Next P [] := fun _ h => by cases h

theorem Next.mono {P Q : TokenKind → Prop} (h : Next P ts) (hP : ∀ kind, P kind → Q kind) :
    Next Q ts := fun t ht => hP t.kind (h t ht)

theorem next_cons {P : TokenKind → Prop} (h : P t.kind) : Next P (t :: ts) := by
  rintro _ ⟨⟩
  exact h

/-- The next token is taken or it is not. -/
theorem take?_cases (choice? : TokenKind → Option β) (ts : List Token) :
    Next (fun kind => choice? kind = none) ts ∨
      ∃ t rest b, ts = t :: rest ∧ choice? t.kind = some b := by
  cases ts with
  | nil => exact .inl next_nil
  | cons t rest =>
    cases h : choice? t.kind with
    | none => exact .inl (next_cons h)
    | some b => exact .inr ⟨t, rest, b, rfl, h⟩

theorem accept_cases (test : TokenKind → Bool) (ts : List Token) :
    Next (fun kind => test kind = false) ts ∨ ∃ t rest, ts = t :: rest ∧ test t.kind := by
  cases ts with
  | nil => exact .inl next_nil
  | cons t rest =>
    cases h : test t.kind with
    | false => exact .inl (next_cons h)
    | true => exact .inr ⟨t, rest, rfl, h⟩

end Sequences

/-- A parser leaves no more tokens than it was given. -/
def Shortens (p : Parser α) : Prop := ∀ ts a rest, p ts = .ok (a, rest) → rest.length ≤ ts.length

namespace Shortens

theorem ret (a : α) : Shortens (pure a) := by
  rintro ts _ _ ⟨⟩
  exact Nat.le_refl _

theorem fail (complaint : Complaint) : Shortens (stuck complaint : Parser α) :=
  fun _ _ _ h => by cases h

theorem get : Shortens (get : Parser (List Token)) := by
  rintro ts _ _ ⟨⟩
  exact Nat.le_refl _

theorem bind {p : Parser α} {f : α → Parser β} (hp : Shortens p) (hf : ∀ a, Shortens (f a)) :
    Shortens (p >>= f) := by
  intro ts b rest h
  obtain ⟨a, mid, hok, hrest⟩ := bind_eq_ok.mp h
  exact (hf a mid b rest hrest).trans (hp ts a mid hok)

theorem take? (f : TokenKind → Option α) : Shortens (take? f) := by
  intro ts a rest h
  unfold Parser.take? at h
  split at h
  · split at h <;> cases h
    · exact Nat.le_succ _
    · exact Nat.le_refl _
  · cases h
    exact Nat.le_refl _

theorem need (what : String) (f : TokenKind → Option α) : Shortens (need what f) := by
  refine (take? f).bind fun found => ?_
  cases found with
  | some a => exact ret a
  | none => exact fail _

theorem accept (test : TokenKind → Bool) : Shortens (accept test) :=
  (take? _).bind fun _ => ret _

theorem extend {step? : α → Parser (Option α)} (h : ∀ a, Shortens (step? a)) (a : α) :
    Shortens (extend step? a) := by
  refine get.bind fun tokens => ?_
  induction tokens.length generalizing a with
  | zero => exact ret a
  | succ n ih =>
    refine (h a).bind fun found => ?_
    cases found with
    | some b => exact ih b
    | none => exact ret a

end Shortens

/-- A parser does as the goals do: they go on after what it has made, or fail where it fails. A
text that breaks the order of arguments is blamed earlier than it is found to be at fault. -/
def Accords (after : α → List Token → Except (List Token) Unit) :
    Except Stuck (α × List Token) → Except (List Token) Unit → Prop
  | .ok (a, rest), r => r = after a rest
  | .error s, r => ∃ fault, r = .error fault ∧ (s.complaint ≠ .positionalAfterNamed → fault = s.rest)

/-- With up to `k` tokens a parser does what the goals ask for, and leaves goals that depend on what
it has made. -/
structure Follows (k : Nat) (p : Parser α) (gs : List Goal) (after : α → List Goal) : Prop where
  accords : ∀ ts σ, ts.length ≤ k →
    Accords (fun a rest => scan (after a ++ σ) rest) (p ts) (scan (gs ++ σ) ts)
  shortens : Shortens p

/-- A parser does what the goals ask for, and nothing else. -/
abbrev Discharges (k : Nat) (p : Parser α) (gs : List Goal) : Prop := Follows k p gs fun _ => []

/-- The goals after a step of a loop, which ends where the step does not apply. -/
def afterStep (goals : α → List Goal) : Option α → List Goal
  | some a => goals a
  | none => []

namespace Follows

variable {p q : Parser α} {f : α → Parser β} {g : Goal} {gs more : List Goal}
  {after : α → List Goal} {after' : β → List Goal}

theorem ret (after : α → List Goal) (a : α) : Follows k (pure a) (after a) after where
  accords _ _ _ := rfl
  shortens := .ret a

theorem mono (h : Follows k p gs after) (hj : j ≤ k) : Follows j p gs after where
  accords ts σ hts := h.accords ts σ (hts.trans hj)
  shortens := h.shortens

theorem bind (hp : Follows k p gs after) (hf : ∀ a, Follows k (f a) (after a) after') :
    Follows k (p >>= f) gs after' where
  accords ts σ hts := by
    have h := hp.accords ts σ hts
    cases hok : p ts with
    | error s =>
      rw [hok] at h
      rw [bind_of_error hok]
      exact h
    | ok found =>
      rw [hok] at h
      rw [bind_of_ok hok, show scan (gs ++ σ) ts = _ from h]
      exact (hf found.1).accords found.2 σ ((hp.shortens ts _ _ hok).trans hts)
  shortens := hp.shortens.bind fun a => (hf a).shortens

/-- What is left can be looked at. -/
theorem looking {f : List Token → Parser α} (hf : ∀ tokens, Follows k (f tokens) gs after) :
    Follows k (get >>= f) gs after where
  accords ts σ hts := by
    rw [get_bind]
    exact (hf ts).accords ts σ hts
  shortens := Shortens.get.bind fun tokens => (hf tokens).shortens

/-- Goals that are left alone. -/
theorem frame (h : Follows k p gs after) (more : List Goal) :
    Follows k p (gs ++ more) fun a => after a ++ more where
  accords ts σ hts := by
    simp only [List.append_assoc]
    exact h.accords ts (more ++ σ) hts
  shortens := h.shortens

/-- Goals that are discharged come first. -/
theorem andThen (hp : Discharges k p gs) (hf : ∀ a, Follows k (f a) more after') :
    Follows k (p >>= f) (gs ++ more) after' :=
  (hp.frame more).bind hf

/-- A parser of a single goal comes before those of the others. -/
theorem cons (hp : Discharges k p [g]) (hf : ∀ a, Follows k (f a) more after') :
    Follows k (p >>= f) (g :: more) after' :=
  hp.andThen hf

theorem map {h : α → β} (hp : Discharges k p gs) :
    Discharges k (p >>= fun a => pure (h a)) gs :=
  bind hp fun a => ret (fun _ => []) (h a)

/-- A parser that takes a token goes on with the goals that the token brings. -/
theorem choosing {γ : Type} {choice? : TokenKind → Option γ} {f : Option γ → Parser α}
    {bring : List Goal} (hdot : choice? (.symbol .dot) = none) (hbeneath : ∀ σ, g.beneath σ = σ)
    (htake : ∀ kind c, choice? kind = some c → g.take? kind = some bring) (hk : k ≤ j + 1)
    (hsome : ∀ c, Follows j (f (some c)) (bring ++ gs) after) (hnone : Shortens (f none))
    (hother : ∀ ts σ, Next (fun kind => choice? kind = none) ts → ts.length ≤ k →
      Accords (fun a rest => scan (after a ++ σ) rest) (f none ts) (scan (g :: gs ++ σ) ts)) :
    Follows k (take? choice? >>= f) (g :: gs) after where
  accords ts σ hts := by
    rcases take?_cases choice? ts with hnone | ⟨t, ts, c, rfl, hchoice⟩
    · rw [take?_bind_none hnone]
      exact hother ts σ hnone hts
    · have ht : t.kind.isSymbol .dot = false := isSymbol_eq_false fun hkind => by
        rw [hkind, hdot] at hchoice
        cases hchoice
      rw [take?_bind_some hchoice, List.cons_append, scan_take (htake _ c hchoice) ht, hbeneath,
        ← List.append_assoc]
      exact (hsome c).accords ts σ (Nat.le_of_succ_le_succ (hts.trans hk))
  shortens := by
    refine (Shortens.take? choice?).bind fun found => ?_
    cases found with
    | some c => exact (hsome c).shortens
    | none => exact hnone

/-- An optional goal is passed over where no token is taken. -/
theorem choose {γ : Type} {choice? : TokenKind → Option γ} {f : Option γ → Parser α}
    (bring : List Goal) (hg : g.isOptional) (hdot : choice? (.symbol .dot) = none)
    (hbeneath : ∀ σ, g.beneath σ = σ)
    (htake : ∀ kind, g.take? kind = (choice? kind).map fun _ => bring)
    (hsome : ∀ c, Follows k (f (some c)) (bring ++ gs) after)
    (hnone : Follows k (f none) gs after) :
    Follows k (take? choice? >>= f) (g :: gs) after := by
  refine choosing hdot hbeneath (fun kind c hc => ?_) (Nat.le_succ k) hsome hnone.shortens
    fun ts σ hnext hts => ?_
  · rw [htake, hc]
    rfl
  · have hpass : Next (fun kind => g.take? kind = none) ts := hnext.mono fun kind hkind => by
      rw [htake, hkind]
      rfl
    rw [List.cons_append, scan_pass hg hpass]
    exact hnone.accords ts σ hts

theorem accepting {test : TokenKind → Bool} (bring : List Goal)
    (hdot : test (.symbol .dot) = false) (hbeneath : ∀ σ, g.beneath σ = σ)
    (htake : ∀ kind, test kind → g.take? kind = some bring) (hk : k ≤ j + 1)
    (hp : Follows j p (bring ++ gs) after) (hq : Shortens q)
    (hother : ∀ ts σ, Next (fun kind => test kind = false) ts → ts.length ≤ k →
      Accords (fun a rest => scan (after a ++ σ) rest) (q ts) (scan (g :: gs ++ σ) ts)) :
    Follows k (do if ← accept test then p else q) (g :: gs) after := by
  rw [accept_bind]
  refine choosing (by rw [hdot]; rfl) hbeneath (fun kind c hc => ?_) hk (fun _ => hp) hq
    fun ts σ hnext hts => hother ts σ (hnext.mono fun kind hkind => ?_) hts
  · exact htake kind (Option.ite_none_right_eq_some.mp hc).1
  · simpa using hkind

theorem ifAccept {test : TokenKind → Bool} {bring : List Goal} (hg : g.isOptional)
    (hdot : test (.symbol .dot) = false) (hbeneath : ∀ σ, g.beneath σ = σ)
    (htake : ∀ kind, g.take? kind = if test kind then some bring else none)
    (hp : Follows k p (bring ++ gs) after) (hq : Follows k q gs after) :
    Follows k (do if ← accept test then p else q) (g :: gs) after := by
  refine accepting _ hdot hbeneath (fun kind hkind => ?_) (Nat.le_succ k) hp hq.shortens
    fun ts σ hnext hts => ?_
  · rw [htake, if_pos hkind]
  · have hpass : Next (fun kind => g.take? kind = none) ts := hnext.mono fun kind hkind => by
      rw [htake, hkind]
      rfl
    rw [List.cons_append, scan_pass hg hpass]
    exact hq.accords ts σ hts

theorem need_accords {what : String} {choice? : TokenKind → Option α} (hg : g.mayEnd = false)
    (hdot : choice? (.symbol .dot) = none) (hbeneath : ∀ σ, g.beneath σ = σ)
    (htake : Next (fun kind => g.take? kind = (choice? kind).map fun _ => []) ts) (σ : List Goal) :
    Accords (fun _ rest => scan σ rest) (need what choice? ts) (scan (g :: σ) ts) := by
  rcases take?_cases choice? ts with hnone | ⟨t, rest, c, rfl, hc⟩
  · have hreject : Next (fun kind => g.take? kind = none) ts := fun t ht =>
      (htake t ht).trans (congrArg _ (hnone t ht))
    rw [need, take?_bind_none hnone, scan_reject hg hreject]
    exact ⟨ts, rfl, fun _ => rfl⟩
  · have hdot' : t.kind.isSymbol .dot = false := isSymbol_eq_false fun hkind => by
      rw [hkind, hdot] at hc
      cases hc
    have hbring : g.take? t.kind = some [] := by
      rw [htake t rfl, hc]
      rfl
    rw [need, take?_bind_some hc, scan_take hbring hdot', hbeneath]
    rfl

theorem need {what : String} {choice? : TokenKind → Option α} (hg : g.mayEnd = false)
    (hdot : choice? (.symbol .dot) = none) (hbeneath : ∀ σ, g.beneath σ = σ)
    (htake : ∀ kind, g.take? kind = (choice? kind).map fun _ => []) :
    Discharges k (need what choice?) [g] where
  accords _ σ _ := need_accords hg hdot hbeneath (fun t _ => htake t.kind) σ
  shortens := .need what choice?

/-- A step that applies as long as it takes tokens. -/
theorem extend {step? : α → Parser (Option α)} (goals : α → List Goal)
    (hstep : ∀ a, Follows k (step? a) (goals a) (afterStep goals))
    (hprogress : ∀ a ts b rest, step? a ts = .ok (some b, rest) → rest.length < ts.length)
    (hend : ∀ a σ, scan (goals a ++ σ) [] = scan σ []) (a : α) :
    Discharges k (extend step? a) (goals a) where
  accords ts σ hts := by
    have hmost (n : Nat) : ∀ a ts, ts.length ≤ n → ts.length ≤ k →
        Accords (fun _ rest => scan σ rest) (extendAtMost step? n a ts)
          (scan (goals a ++ σ) ts) := by
      induction n with
      | zero =>
        intro a ts hn _
        rw [List.length_eq_zero_iff.mp (Nat.le_zero.mp hn)]
        exact hend a σ
      | succ n ih =>
        intro a ts hn hts
        have h := (hstep a).accords ts σ hts
        cases hok : step? a ts with
        | error s =>
          rw [hok] at h
          rw [extendAtMost, bind_of_error hok]
          exact h
        | ok found =>
          obtain ⟨found, rest⟩ := found
          rw [hok] at h
          rw [extendAtMost, bind_of_ok hok]
          cases found with
          | none => exact h
          | some b =>
            have hlength := hprogress a ts b rest hok
            have hgoals : scan (goals a ++ σ) ts = scan (goals b ++ σ) rest := h
            rw [hgoals]
            exact ih b rest (by omega) (by omega)
    exact hmost ts.length a ts (Nat.le_refl _) hts
  shortens := .extend (fun a => (hstep a).shortens) a

end Follows

section Progress

theorem take?_progress {γ : Type} {choice? : TokenKind → Option γ}
    {f : Option γ → Parser (Option α)} {b : α} (hsome : ∀ c, Shortens (f (some c)))
    (hnone : f none = pure none) (h : (take? choice? >>= f) ts = .ok (some b, rest)) :
    rest.length < ts.length := by
  rcases take?_cases choice? ts with hnext | ⟨t, ts, c, rfl, hc⟩
  · rw [take?_bind_none hnext, hnone] at h
    cases h
  · rw [take?_bind_some hc] at h
    exact Nat.lt_succ_of_le (hsome c ts _ _ h)

theorem ifAccept_progress {test : TokenKind → Bool} {p q : Parser (Option α)} {b : α}
    (hp : Shortens p) (hq : ∀ rest, q ts = .ok (some b, rest) → rest.length < ts.length)
    (h : (do if ← accept test then p else q : Parser (Option α)) ts = .ok (some b, rest)) :
    rest.length < ts.length := by
  rcases accept_cases test ts with hnext | ⟨t, ts, rfl, htest⟩
  · rw [accept_bind_false hnext] at h
    exact hq rest h
  · rw [accept_bind_true htest] at h
    exact Nat.lt_succ_of_le (hp ts _ _ h)

theorem need_progress {what : String} {choice? : TokenKind → Option α} {a : α}
    (h : need what choice? ts = .ok (a, rest)) : rest.length < ts.length := by
  rcases take?_cases choice? ts with hnext | ⟨t, ts, c, rfl, hc⟩
  · rw [need, take?_bind_none hnext] at h
    cases h
  · rw [need, take?_bind_some hc] at h
    cases h
    exact Nat.lt_succ_self _

/-- Without a token there is no further step. -/
theorem none_progress (b : α) (rest : List Token)
    (h : (pure none : Parser (Option α)) ts = .ok (some b, rest)) : rest.length < ts.length := by
  cases h

end Progress

end Stencil.Parser
