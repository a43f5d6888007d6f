import Stencil.Proofs.Machine

/-!
# Renders that are cut

A render whose sink is full, or that is told to stop, has done what a render does that nothing
stops, up to there. The two are related step by step: they go along until one of them fails, and
however far the other one goes, what the first one has written stays a beginning of what the other
one writes.
-/
namespace Stencil

namespace Sink

theorem encode_append (k : Sink) (a b : String) : k.encode (a ++ b) = k.encode a ++ k.encode b := by
  simp only [encode]
  split
  · simp [String.toList_append, String.ofList_append, String.toByteArray_append]
  · simp [String.toByteArray_append]

/-- The second sink begins with what the first one holds. -/
def Begins (j k : Sink) : Prop := ∃ rest, k.held = j.held ++ rest

theorem Begins.refl (k : Sink) : Begins k k := ⟨.empty, by simp⟩

theorem Begins.trans {i j k : Sink} (h : Begins i j) (g : Begins j k) : Begins i k := by
  obtain ⟨a, ha⟩ := h
  obtain ⟨b, hb⟩ := g
  exact ⟨a ++ b, by rw [hb, ha, ByteArray.append_assoc]⟩

theorem begins_write (text : String) (k : Sink) : Begins k (k.write text).2 := by
  simp only [write]
  split
  · exact ⟨_, rfl⟩
  · split
    · exact ⟨_, rfl⟩
    · exact ⟨_, rfl⟩

theorem extract_of_size_le {bytes : ByteArray} {n : Nat} (h : bytes.size ≤ n) :
    bytes.extract 0 n = bytes := by
  rw [← Nat.max_eq_left h]
  exact ByteArray.extract_zero_max_size

/-- To write pieces is to write the whole. -/
theorem write_append (a b : String) (k : Sink) :
    k.write (a ++ b) = match k.write a with
      | (.ok (), j) => j.write b
      | (.error e, j) => (.error e, j) := by
  have hencode (held : ByteArray) (limit : Option Nat) :
    ({ k with held, limit } : Sink).encode b = k.encode b := rfl
  cases hl : k.limit with
  | none => simp [write, hl, hencode, encode_append, ByteArray.append_assoc]
  | some limit =>
    simp only [write, hl, encode_append, ByteArray.size_append]
    by_cases ha : (k.encode a).size ≤ limit - k.held.size
    · simp only [if_pos ha, hencode, ByteArray.size_append]
      by_cases hb : (k.encode b).size ≤ limit - (k.held.size + (k.encode a).size)
      · rw [if_pos hb, if_pos (by omega), ByteArray.append_assoc]
      · rw [if_neg hb, if_neg (by omega), ByteArray.extract_append, extract_of_size_le ha,
          ByteArray.append_assoc, Nat.zero_sub, Nat.sub_sub]
    · have hnone : limit - k.held.size - (k.encode a).size = 0 := by omega
      rw [if_neg ha, if_neg (by omega), ByteArray.extract_append, Nat.zero_sub, hnone,
        ByteArray.extract_same, ByteArray.append_empty]

theorem flush_of_unlimited {k : Sink} (h : k.limit = none) : k.flush = .ok () := by
  simp [flush, h]

/-- The first sink takes `n` bytes, the second one takes all, and they hold the same. -/
structure Limits (n : Nat) (j k : Sink) : Prop where
  limit : j.limit = some n
  unlimited : k.limit = none
  upper : j.upper = k.upper
  held : j.held = k.held
  size_le : j.held.size ≤ n

/-- The first sink holds the first `n` bytes of the second one, which holds more. -/
structure Fills (n : Nat) (j k : Sink) : Prop where
  size : j.held.size = n
  more : ∃ rest, k.held = j.held ++ rest ∧ 0 < rest.size

theorem Fills.begins {n : Nat} {i j k : Sink} (h : Fills n i j) (g : Begins j k) : Fills n i k := by
  obtain ⟨hsize, rest, hrest, hpos⟩ := h
  obtain ⟨more, hmore⟩ := g
  refine ⟨hsize, rest ++ more, by rw [hmore, hrest, ByteArray.append_assoc], ?_⟩
  rw [ByteArray.size_append]
  omega

theorem Limits.write {n : Nat} {j k : Sink} (h : Limits n j k) (text : String) :
    ((j.write text).1 = (k.write text).1 ∧ Limits n (j.write text).2 (k.write text).2) ∨
      (j.write text).1 = .error .full ∧ Fills n (j.write text).2 (k.write text).2 := by
  obtain ⟨hl, hk, hu, hh, hn⟩ := h
  have hencode : j.encode text = k.encode text := by simp only [encode, hu]
  simp only [Sink.write, hl, hk]
  by_cases hfits : (j.encode text).size ≤ n - j.held.size
  · rw [if_pos hfits]
    refine .inl ⟨rfl, rfl, rfl, hu, by rw [hh, hencode], ?_⟩
    simp only [ByteArray.size_append]
    omega
  · rw [if_neg hfits]
    refine .inr ⟨rfl, ?_, (j.encode text).extract (n - j.held.size) (j.encode text).size, ?_, ?_⟩
    · simp only [ByteArray.size_append, ByteArray.size_extract]
      omega
    · rw [ByteArray.append_assoc, ← ByteArray.extract_eq_extract_append_extract _ (by omega)
        (by omega), ByteArray.extract_zero_size, hh, hencode]
    · rw [ByteArray.size_extract]
      omega

theorem Limits.extract {n : Nat} {j k : Sink} (h : Limits n j k) :
    j.held = k.held.extract 0 n ∧ k.held.size ≤ n := by
  have hn := h.size_le
  rw [h.held] at hn
  exact ⟨by rw [extract_of_size_le hn, h.held], hn⟩

theorem Fills.extract {n : Nat} {j k : Sink} (h : Fills n j k) :
    j.held = k.held.extract 0 n ∧ n < k.held.size := by
  obtain ⟨hsize, rest, hrest, hpos⟩ := h
  rw [hrest]
  refine ⟨(ByteArray.extract_append_eq_left hsize.symm).symm, ?_⟩
  rw [ByteArray.size_append]
  omega

end Sink

def State.withSink (s : State) (k : Sink) : State := { s with sink := k }

namespace Render

variable {α β : Type}

/-- What a step does that neither looks at the sink nor changes it. -/
def Blind (x : Render α) : Prop :=
  ∀ (s : State) k, x (s.withSink k) = ((x s).1, (x s).2.withSink k)

/-- How sinks compare while two renders go along and once the first one is cut, and the errors that
cut it. -/
structure Cut where
  along : Sink → Sink → Prop
  past : Sink → Sink → Prop
  error : Error → Prop
  located : ∀ e l, error e → error (e.locatedAt l)

/-- The first render does what the second one does until it is cut. -/
structure Cut.Relates (C : Cut) (x y : Render α) : Prop where
  along : ∀ s k, C.along s.sink k →
    (∃ k', C.along (x s).2.sink k' ∧ y (s.withSink k) = ((x s).1, (x s).2.withSink k')) ∨
    ∃ e, (x s).1 = .error e ∧ C.error e ∧ C.past (x s).2.sink (y (s.withSink k)).2.sink
  past : ∀ s j, C.past j s.sink → C.past j (y s).2.sink

theorem Blind.leaves {x : Render α} (h : Blind x) : Leaves State.sink x := by
  intro s
  have hs := h s s.sink
  change x s = _ at hs
  rw [hs]
  rfl

theorem load_blind (engine : Engine) (name : String) : Blind (load engine name) := fun _ _ => rfl

theorem Blind.seq {x : Render α} {f : α → Render β} (hx : Blind x) (hf : ∀ a, Blind (f a)) :
    Blind (x >>= f) := by
  intro s k
  have h := hx s k
  rcases hr : x s with ⟨e | a, t⟩
  · rw [hr] at h
    rw [bind_of_error h, bind_of_error hr]
  · rw [hr] at h
    rw [bind_of_ok h, bind_of_ok hr]
    exact hf a t k

theorem params_blind (engine : Engine) (name : String) (subject : Option (Expr × Option String))
    (bindings : List (String × Expr)) : Blind (params engine name subject bindings) := by
  cases subject with
  | none => exact .seq (fun _ _ => rfl) fun _ _ _ => rfl
  | some subject =>
    obtain ⟨e, given?⟩ := subject
    exact .seq (fun _ _ => rfl) fun _ => .seq (fun _ _ => rfl) fun _ _ _ => rfl

namespace Cut.Relates

variable {C : Cut}

theorem of_blind {x : Render α} (h : Blind x) : C.Relates x x where
  along s k hk := .inl ⟨k, by rw [h.leaves s]; exact hk, h s k⟩
  past s j hj := by rw [h.leaves s]; exact hj

theorem seq {x y : Render α} {f g : α → Render β} (hx : C.Relates x y)
    (hf : ∀ a, C.Relates (f a) (g a)) : C.Relates (x >>= f) (y >>= g) where
  along s k hk := by
    rcases hx.along s k hk with ⟨k', hk', hy⟩ | ⟨e, he, hcut, hpast⟩
    · rcases hr : x s with ⟨e | a, t⟩
      · rw [hr] at hy hk'
        rw [bind_of_error hr, bind_of_error hy]
        exact .inl ⟨k', hk', rfl⟩
      · rw [hr] at hy hk'
        rw [bind_of_ok hr, bind_of_ok hy]
        exact (hf a).along t k' hk'
    · have hr : x s = (.error e, (x s).2) := Prod.ext he rfl
      rw [bind_of_error hr]
      -- The first render has stopped, and the second one may go on writing.
      refine .inr ⟨e, rfl, hcut, ?_⟩
      apply bind_elim (P := fun r => C.past (x s).2.sink r.2.sink)
      · intro e' t ht
        rwa [ht] at hpast
      · intro a t ht
        rw [ht] at hpast
        exact (hf a).past t _ hpast
  past s j hj := by
    have hy := hx.past s j hj
    apply bind_elim (P := fun r => C.past j r.2.sink)
    · intro e t ht
      rwa [ht] at hy
    · intro a t ht
      rw [ht] at hy
      exact (hf a).past t j hy

/-- What is done to a state before a render, and to its outcome after it, without a look at the
sink. -/
theorem wrap (before : State → State)
    (after : State → Except Error α × State → Except Error β × State) {x y : Render α}
    (h : C.Relates x y)
    (hbefore : ∀ s k, before (s.withSink k) = (before s).withSink k)
    (hafter : ∀ s k r t k', after (s.withSink k) (r, t.withSink k') =
      ((after s (r, t)).1, (after s (r, t)).2.withSink k'))
    (hcut : ∀ s e t, C.error e → ∃ e', (after s (.error e, t)).1 = .error e' ∧ C.error e') :
    C.Relates (fun s => after s (x (before s))) fun s => after s (y (before s)) := by
  have hsink (s : State) (r : Except Error α × State) : (after s r).2.sink = r.2.sink := by
    have ha := hafter s s.sink r.1 r.2 r.2.sink
    change after s r = _ at ha
    rw [ha]
    rfl
  have hstart (s : State) : (before s).sink = s.sink := by
    have hb := hbefore s s.sink
    change before s = _ at hb
    rw [hb]
    rfl
  constructor
  · intro s k hk
    rw [hbefore]
    rcases h.along (before s) k (by rwa [hstart]) with ⟨k', hk', hy⟩ | ⟨e, he, herror, hpast⟩
    · refine .inl ⟨k', by rwa [hsink], ?_⟩
      rw [hy]
      exact hafter s k _ _ k'
    · have hx : x (before s) = (.error e, (x (before s)).2) := Prod.ext he rfl
      obtain ⟨e', he', herror'⟩ := hcut s e (x (before s)).2 herror
      refine .inr ⟨e', ?_, herror', ?_⟩
      · rw [hx]
        exact he'
      · rw [hsink, hsink]
        exact hpast
  · intro s j hj
    rw [hsink]
    exact h.past (before s) j (by rwa [hstart])

theorem inLoop {x y : Render α} (h : C.Relates x y) : C.Relates (inLoop x) (inLoop y) :=
  wrap (fun s => { s with scope := s.scope.enterLoop })
    (fun _ r => (r.1, { r.2 with scope := r.2.scope.leaveLoop })) h
    (fun _ _ => rfl) (fun _ _ _ _ _ => rfl) fun _ e _ he => ⟨e, rfl, he⟩

theorem inChild (params : Bindings) (isolated : Bool) {x y : Render α} (h : C.Relates x y) :
    C.Relates (inChild params isolated x) (inChild params isolated y) :=
  wrap (fun s => { s with scope := s.scope.child params isolated })
    (fun s r => (r.1, { r.2 with scope := s.scope })) h
    (fun _ _ => rfl) (fun _ _ _ _ _ => rfl) fun _ e _ he => ⟨e, rfl, he⟩

theorem captured {x y : Render α} (h : C.Relates x y) : C.Relates (captured x) (captured y) :=
  wrap (fun s => { s with captures := "" :: s.captures })
    (fun _ r => (r.1.map fun a => (a, r.2.captures.headD ""),
      { r.2 with captures := r.2.captures.tail })) h
    (fun _ _ => rfl) (fun _ _ _ _ _ => rfl) fun _ e _ he => ⟨e, rfl, he⟩

theorem locatedAt (l : Location) {x y : Render α} (h : C.Relates x y) :
    C.Relates (locatedAt l x) (locatedAt l y) :=
  wrap (fun s => s) (fun _ r => (r.1.mapError (Error.locatedAt l), r.2)) h
    (fun _ _ => rfl) (fun _ _ _ _ _ => rfl)
    fun _ e _ he => ⟨e.locatedAt l, rfl, C.located e l he⟩

theorem evaluation {A B : Engine} (heval : ∀ e, C.Relates (eval A e) (eval B e)) :
    EvalCongruence A B (fun _ => True) C.Relates where
  ret _ := .of_blind fun _ _ => rfl
  seq := .seq
  toInt _ := .of_blind fun _ _ => rfl
  eval {e} _ := heval e
  bounds _ := ⟨trivial, trivial⟩

theorem iterate (name : String) (items : LoopItems) {x y : Render Signal} (h : C.Relates x y)
    (index left : Nat) :
    C.Relates (iterate name items x index left) (iterate name items y index left) :=
  (evaluation (A := {}) (B := {}) fun _ => .of_blind fun _ _ => rfl).iterate name
    (fun _ _ => .of_blind fun _ _ => rfl) items h index left

/-- Renders are related if their inclusions and their evaluation are. -/
theorem congruence {A B : Setting} {a b : Includer}
    (heval : ∀ e, C.Relates (eval A.engine e) (eval B.engine e))
    (hcheck : C.Relates (check A.interrupt) (check B.interrupt))
    (hwrite : ∀ text, C.Relates (write text) (write text))
    (hinclusion : ∀ isolated template subject bindings, C.Relates
      (inclusion A.engine a isolated template subject bindings)
      (inclusion B.engine b isolated template subject bindings)) :
    Congruence A B a b (fun _ => True) C.Relates where
  toEvalCongruence := evaluation heval
  check := hcheck
  write := hwrite
  assign _ _ := .of_blind fun _ _ => rfl
  loop name items count _ _ h := (h.iterate name items 0 count).inLoop
  captured := .captured
  nextCycle _ _ := .of_blind fun _ _ => rfl
  located _ := .locatedAt _
  inclusion _ := hinclusion _ _ _ _

/-- Templates of a name are included alike where they run alike. -/
theorem included {A B : Engine} {f g : List Node → Render Signal} {name : String}
    (hload : C.Relates (load A name) (load B name)) {subject : Option (Expr × Option String)}
    {bindings : List (String × Expr)}
    (hparams : C.Relates (params A name subject bindings) (params B name subject bindings))
    (hrun : ∀ nodes, C.Relates (f nodes) (g nodes)) (isolated : Bool) :
    C.Relates
      (do
        let included ← load A name
        let params ← params A name subject bindings
        discard (Render.inChild params isolated (f included.nodes))
        return Signal.normal)
      (do
        let included ← load B name
        let params ← params B name subject bindings
        discard (Render.inChild params isolated (g included.nodes))
        return Signal.normal) := by
  refine .seq hload fun included => .seq hparams fun params => ?_
  refine .seq (.seq ((hrun included.nodes).inChild params isolated) fun _ => ?_) fun _ => ?_
  · exact .of_blind fun _ _ => rfl
  · exact .of_blind fun _ _ => rfl

end Cut.Relates

namespace Cut

variable {C : Cut} (engine : Engine) {i j : Interrupt}
  (hcheck : C.Relates (check i) (check j)) (hwrite : ∀ text, C.Relates (write text) (write text))
include hcheck hwrite

theorem congruence {a b : Includer}
    (hab : Option.Rel (fun f g => ∀ nodes, C.Relates (f nodes) (g nodes)) a b) :
    Congruence ⟨engine, i⟩ ⟨engine, j⟩ a b (fun _ => True) C.Relates := by
  refine Relates.congruence (fun _ => .of_blind fun _ _ => rfl) hcheck hwrite ?_
  intro isolated template subject bindings
  refine .seq (.of_blind fun _ _ => rfl) fun v => ?_
  cases hab with
  | none => exact .of_blind fun _ _ => rfl
  | some hab =>
    exact .included (.of_blind (load_blind engine _)) (.of_blind (params_blind engine _ _ _)) hab
      isolated

theorem runWithin_relates (room : Nat) (nodes : List Node) :
    C.Relates (runWithin ⟨engine, i⟩ room nodes) (runWithin ⟨engine, j⟩ room nodes) := by
  induction room generalizing nodes with
  | zero => exact (congruence engine hcheck hwrite .none).ofNodes nodes fun _ _ => trivial
  | succ room ih =>
    exact (congruence engine hcheck hwrite (.some ih)).ofNodes nodes fun _ _ => trivial

theorem run_relates (nodes : List Node) :
    C.Relates (run ⟨engine, i⟩ nodes) (run ⟨engine, j⟩ nodes) where
  along s k hk := (runWithin_relates engine hcheck hwrite _ nodes).along s k hk
  past s k hk := (runWithin_relates engine hcheck hwrite _ nodes).past s k hk

end Cut

theorem begins_of_write (text : String) (s : State) : s.sink.Begins (write text s).2.sink := by
  simp only [write]
  cases s.captures with
  | nil => exact Sink.begins_write text s.sink
  | cons buffer captures => exact .refl _

/-- A sink that takes `n` bytes beside one that takes all. -/
def Cut.atLimit (n : Nat) : Cut where
  along := Sink.Limits n
  past := Sink.Fills n
  error e := e = ⟨.output .full, none⟩
  located := by
    rintro _ l rfl
    exact rfl

theorem check_atLimit (n : Nat) (interrupt : Interrupt) :
    (Cut.atLimit n).Relates (check interrupt) (check interrupt) where
  along s k hk := by
    refine .inl ⟨k, hk, ?_⟩
    have hh : s.sink.held = k.held := hk.held
    simp only [check, State.withSink, hh]
    rfl
  past s j hj := hj

theorem write_atLimit (n : Nat) (text : String) :
    (Cut.atLimit n).Relates (write text) (write text) where
  along s k hk := by
    simp only [write, State.withSink]
    cases s.captures with
    | cons buffer captures => exact .inl ⟨k, hk, rfl⟩
    | nil =>
      rcases Sink.Limits.write hk text with ⟨hresult, hnext⟩ | ⟨hfull, hnext⟩
      · refine .inl ⟨(k.write text).2, hnext, ?_⟩
        dsimp only
        rw [hresult]
      · refine .inr ⟨_, ?_, rfl, hnext⟩
        dsimp only
        rw [hfull]
        rfl
  past s j hj := Sink.Fills.begins hj (begins_of_write text s)

/-- A render that may be told to stop beside one that may not. -/
def Cut.byInterrupt : Cut where
  along := Eq
  past := Sink.Begins
  error e := e = ⟨.cancelled, none⟩
  located := by
    rintro _ l rfl
    exact rfl

theorem check_byInterrupt (interrupt : Interrupt) :
    Cut.byInterrupt.Relates (check interrupt) (check fun _ _ => false) where
  along s k hk := by
    obtain rfl : s.sink = k := hk
    cases hstop : interrupt s.checks s.sink.held.size with
    | false =>
      refine .inl ⟨s.sink, rfl, ?_⟩
      simp [check, State.withSink, hstop]
    | true =>
      refine .inr ⟨_, ?_, rfl, .refl s.sink⟩
      simp [check, hstop]
  past s j hj := hj

theorem write_byInterrupt (text : String) :
    Cut.byInterrupt.Relates (write text) (write text) where
  along s k hk := by
    obtain rfl : s.sink = k := hk
    exact .inl ⟨(write text s).2.sink, rfl, rfl⟩
  past s j hj := Sink.Begins.trans hj (begins_of_write text s)

end Render

end Stencil
