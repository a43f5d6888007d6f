import Mathlib
import Stencil.Value.Order

/-!
# Merging runs

What a bottom-up merge does to a list when all that is known of `before` is that it is a strict
order: the pairs that it leaves unordered, called ties, need not form classes. Every law is proved
for the merge of two runs and carried to the whole by `sortBy_of_merge`.
-/
namespace Stencil.Sorting

variable {α β : Type} {before : α → α → Bool}

theorem merge_eq (left right : List α) :
    merge before left right = left.merge right fun a b => !before b a := by
  fun_induction merge before left right with
  | case1 right => simp
  | case2 left hne => simp
  | case3 a left b right h ih => simp [h, ih]
  | case4 a left b right h ih => simp [h, ih]

theorem merge_perm (left right : List α) : (merge before left right).Perm (left ++ right) := by
  rw [merge_eq]
  exact List.merge_perm_append _

theorem mem_merge {x : α} {left right : List α} :
    x ∈ merge before left right ↔ x ∈ left ∨ x ∈ right := by
  rw [merge_eq, List.mem_merge]

theorem head?_merge {x : α} {left right : List α} (h : x ∈ (merge before left right).head?) :
    x ∈ left.head? ∨ x ∈ right.head? := by
  unfold merge at h
  grind

theorem flatten_singles (items : List α) : (items.map fun a => [a]).flatten = items := by
  rw [← List.flatMap_def, List.flatMap_singleton']

section Runs

variable {P : List α → List α → Prop} {items : List α}

/-- Merging pairs of runs keeps what holds of each run and the part of the list it is made of. -/
theorem mergePairs_of_merge
    (hmerge : ∀ s t left right, s ++ t <:+: items → P s left → P t right →
      P (s ++ t) (merge before left right))
    {segments runs : List (List α)} (hin : segments.flatten <:+: items)
    (h : List.Forall₂ P segments runs) :
    ∃ joined, joined.flatten = segments.flatten ∧
      List.Forall₂ P joined (mergePairs before runs) := by
  induction runs using mergePairs.induct generalizing segments with
  | case1 a b runs ih =>
    cases h with
    | @cons s _ segments _ ha h =>
    cases h with
    | @cons t _ segments _ hb h =>
    rw [List.flatten_cons, List.flatten_cons, ← List.append_assoc] at hin
    obtain ⟨joined, hflat, hruns⟩ := ih ((List.suffix_append _ _).isInfix.trans hin) h
    refine ⟨(s ++ t) :: joined, by simp [hflat], ?_⟩
    rw [mergePairs]
    exact .cons (hmerge s t a b ((List.prefix_append _ _).isInfix.trans hin) ha hb) hruns
  | case2 runs hfew => exact ⟨segments, rfl, by rwa [mergePairs]; exact hfew⟩

theorem mergeAll_of_merge (hnil : P [] [])
    (hmerge : ∀ s t left right, s ++ t <:+: items → P s left → P t right →
      P (s ++ t) (merge before left right))
    {segments runs : List (List α)} (hin : segments.flatten <:+: items)
    (h : List.Forall₂ P segments runs) : P segments.flatten (mergeAll before runs) := by
  induction runs using mergeAll.induct before generalizing segments with
  | case1 =>
    cases h
    rwa [mergeAll]
  | case2 run =>
    cases h with
    | cons hrun h =>
    cases h
    simpa [mergeAll] using hrun
  | case3 a b runs ih =>
    obtain ⟨joined, hflat, hjoined⟩ := mergePairs_of_merge hmerge hin h
    rw [mergeAll, ← hflat]
    exact ih (hflat ▸ hin) hjoined

/-- What holds of single elements and is kept when two neighbouring runs are merged holds of the
list and its sorted form. -/
theorem sortBy_of_merge (P : List α → List α → Prop) (items : List α) (hnil : P [] [])
    (hone : ∀ a, P [a] [a])
    (hmerge : ∀ s t left right, s ++ t <:+: items → P s left → P t right →
      P (s ++ t) (merge before left right)) : P items (sortBy before items) := by
  have hsingles : List.Forall₂ P (items.map ([·])) (items.map ([·])) := by
    rw [List.forall₂_map_left_iff, List.forall₂_map_right_iff, List.forall₂_same]
    exact fun a _ => hone a
  have hwhole := mergeAll_of_merge hnil hmerge (by rw [flatten_singles]) hsingles
  rwa [flatten_singles] at hwhole

end Runs

theorem sortBy_perm (items : List α) : (sortBy before items).Perm items := by
  refine sortBy_of_merge (fun s run => run.Perm s) items .nil (fun a => .refl [a]) ?_
  intro s t left right _ hleft hright
  exact (merge_perm left right).trans (hleft.append hright)

/-- The same where the elements of the runs are known to be elements of the list. -/
theorem sortBy_of_merge_mem (P : List α → List α → Prop) (items : List α) (hnil : P [] [])
    (hone : ∀ a, P [a] [a])
    (hmerge : ∀ s t left right, (∀ x ∈ left, x ∈ items) → (∀ x ∈ right, x ∈ items) →
      P s left → P t right → P (s ++ t) (merge before left right)) :
    P items (sortBy before items) := by
  have hwhole : (sortBy before items).Perm items ∧ P items (sortBy before items) := by
    refine sortBy_of_merge (fun s run => run.Perm s ∧ P s run) items ⟨.nil, hnil⟩
      (fun a => ⟨.refl [a], hone a⟩) ?_
    rintro s t left right hin ⟨hs, hleft⟩ ⟨ht, hright⟩
    refine ⟨(merge_perm left right).trans (hs.append ht), hmerge s t left right ?_ ?_ hleft hright⟩
    · exact fun x hx => hin.subset (List.mem_append_left t (hs.subset hx))
    · exact fun x hx => hin.subset (List.mem_append_right s (ht.subset hx))
  exact hwhole.2

theorem merge_map (f : β → α) (left right : List β) :
    merge before (left.map f) (right.map f)
      = (merge (fun x y => before (f x) (f y)) left right).map f := by
  rw [merge_eq, merge_eq]
  exact (List.map_merge (f := f) (s := fun a b => !before b a) fun a _ b _ => rfl).symm

/-- Where there are no two runs to merge. -/
theorem few_runs {runs : List (List α)} (h : ∀ a b rest, runs = a :: b :: rest → False) :
    runs = [] ∨ ∃ run, runs = [run] := by
  rcases runs with _ | ⟨run, _ | ⟨b, rest⟩⟩
  · exact .inl rfl
  · exact .inr ⟨run, rfl⟩
  · exact absurd rfl (h run b rest)

theorem mergePairs_map (f : β → α) (runs : List (List β)) :
    mergePairs before (runs.map (List.map f))
      = (mergePairs (fun x y => before (f x) (f y)) runs).map (List.map f) := by
  induction runs using mergePairs.induct with
  | case1 a b runs ih => simp only [List.map_cons, mergePairs, merge_map, ih]
  | case2 runs hfew =>
    obtain rfl | ⟨run, rfl⟩ := few_runs hfew <;> rfl

theorem mergeAll_map (f : β → α) (runs : List (List β)) :
    mergeAll before (runs.map (List.map f))
      = (mergeAll (fun x y => before (f x) (f y)) runs).map f := by
  induction runs using mergeAll.induct (fun x y => before (f x) (f y)) with
  | case1 => simp [mergeAll]
  | case2 run => simp [mergeAll]
  | case3 a b runs ih =>
    rw [mergeAll, ← ih, ← mergePairs_map]
    simp only [List.map_cons, mergeAll]

/-- Sorting images by an order is sorting by what it says of the images. -/
theorem sortBy_map (f : β → α) (items : List β) :
    sortBy before (items.map f) = (sortBy (fun x y => before (f x) (f y)) items).map f := by
  have hsingles : (items.map f).map ([·]) = (items.map ([·])).map (List.map f) := by simp
  rw [sortBy, hsingles, mergeAll_map, sortBy]

/-- A strict order, some pairs of which it may leave unordered. -/
structure IsStrict (before : α → α → Bool) : Prop where
  irrefl : ∀ a, before a a = false
  trans : ∀ {a b c}, before a b = true → before b c = true → before a c = true

section IsStrict

variable {a b c : α} (strict : IsStrict before)
include strict

/-- What precedes something that `a` does not precede is not preceded by `a` either. -/
theorem IsStrict.not_left (h : before a c = false) (hbc : before b c = true) : before a b = false :=
  eq_false_of_ne_true fun hab => Bool.false_ne_true (h.symm.trans (strict.trans hab hbc))

/-- What `a` precedes does not precede something that `a` does not precede. -/
theorem IsStrict.not_right (h : before a c = false) (hab : before a b = true) :
    before b c = false :=
  eq_false_of_ne_true fun hbc => Bool.false_ne_true (h.symm.trans (strict.trans hab hbc))

theorem IsStrict.asymm (h : before a b = true) : before b a = false :=
  strict.not_right (strict.irrefl a) h

end IsStrict

/-- Neither precedes the other. -/
def tied (before : α → α → Bool) (a b : α) : Bool := !before a b && !before b a

theorem tied_iff {a b : α} : tied before a b = true ↔ before a b = false ∧ before b a = false := by
  simp [tied]

theorem tied_comm (a b : α) : tied before a b = tied before b a := Bool.and_comm _ _

/-- Among the elements of the list, ties form classes. -/
def TiesTransitive (before : α → α → Bool) (items : List α) : Prop :=
  ∀ a ∈ items, ∀ b ∈ items, ∀ c ∈ items,
    tied before a b = true → tied before b c = true → tied before a c = true

instance (items : List α) : Decidable (TiesTransitive before items) :=
  inferInstanceAs (Decidable (∀ a ∈ items, ∀ b ∈ items, ∀ c ∈ items, _ → _ → _))

/-- An element between two ordered ones follows the first or precedes the second. -/
theorem TiesTransitive.between {items : List α} (ties : TiesTransitive before items)
    (strict : IsStrict before) {a b c : α} (ha : a ∈ items) (hb : b ∈ items) (hc : c ∈ items)
    (h : before a c = true) : before a b = true ∨ before b c = true := by
  by_contra hneither
  simp only [not_or, Bool.not_eq_true] at hneither
  obtain ⟨hab, hbc⟩ := hneither
  have hba : before b a = false := strict.not_left hbc h
  have hcb : before c b = false := strict.not_right hab h
  have hac := ties a ha b hb c hc (tied_iff.mpr ⟨hab, hba⟩) (tied_iff.mpr ⟨hbc, hcb⟩)
  exact Bool.false_ne_true ((tied_iff.mp hac).1.symm.trans h)

/-- When nothing in the right run precedes anything in the left one, they are put together. -/
theorem merge_of_ordered {left right : List α}
    (h : ∀ a ∈ left, ∀ b ∈ right, before b a = false) :
    merge before left right = left ++ right := by
  rw [merge_eq]
  exact List.merge_of_le fun a b ha hb => by simp [h a ha b hb]

/-- What is in order stays as it is. -/
theorem sortBy_of_ordered {items : List α}
    (h : items.Pairwise fun a b => before b a = false) : sortBy before items = items := by
  refine sortBy_of_merge (fun s run => run = s) items rfl (fun _ => rfl) ?_
  rintro s t _ _ hin rfl rfl
  obtain ⟨-, -, hacross⟩ := List.pairwise_append.mp (h.sublist hin.sublist)
  exact merge_of_ordered hacross

theorem merge_isChain (strict : IsStrict before) (left right : List α)
    (hleft : left.IsChain fun a b => before b a = false)
    (hright : right.IsChain fun a b => before b a = false) :
    (merge before left right).IsChain fun a b => before b a = false := by
  fun_induction merge before left right with
  | case1 right => exact hright
  | case2 left hne => exact hleft
  | case3 a left b right h ih =>
    rw [List.isChain_cons] at hright
    refine List.isChain_cons.mpr ⟨fun x hx => ?_, ih hleft hright.2⟩
    rcases head?_merge hx with hx | hx
    · obtain rfl : a = x := by simpa using hx
      exact strict.asymm h
    · exact hright.1 x hx
  | case4 a left b right h ih =>
    rw [List.isChain_cons] at hleft
    refine List.isChain_cons.mpr ⟨fun x hx => ?_, ih hleft.2 hright⟩
    rcases head?_merge hx with hx | hx
    · exact hleft.1 x hx
    · obtain rfl : b = x := by simpa using hx
      simpa using h

/-- Nothing in a sorted list precedes its left neighbour. -/
theorem sortBy_isChain (strict : IsStrict before) (items : List α) :
    (sortBy before items).IsChain fun a b => before b a = false :=
  sortBy_of_merge_mem (fun _ run => run.IsChain fun a b => before b a = false) items .nil
    (fun a => .singleton a) fun _ _ left right _ _ => merge_isChain strict left right

/-- What an element in `p` precedes comes after any other element, or that one follows it. -/
def Decides (before : α → α → Bool) (p : α → Prop) (items : List α) : Prop :=
  ∀ y ∈ items, ∀ a ∈ items, ∀ b ∈ items, p y → before y a = true →
    before y b = true ∨ before b a = true

theorem merge_settles (strict : IsStrict before) {p : α → Prop} {items left right : List α}
    (decides : Decides before p items) (hl : ∀ x ∈ left, x ∈ items) (hr : ∀ x ∈ right, x ∈ items)
    (hleft : left.Pairwise fun a b => p b → before b a = false)
    (hright : right.Pairwise fun a b => p b → before b a = false) :
    (merge before left right).Pairwise fun a b => p b → before b a = false := by
  fun_induction merge before left right with
  | case1 right => exact hright
  | case2 left hne => exact hleft
  | case3 a left b right h ih =>
    obtain ⟨hb, htail⟩ := List.pairwise_cons.mp hright
    refine List.pairwise_cons.mpr ⟨fun y hy hp => ?_,
      ih hl (fun x hx => hr x (List.mem_cons_of_mem b hx)) hleft htail⟩
    -- `b` precedes the first of the left run, which nothing in `p` after it precedes
    rcases mem_merge.mp hy with hy | hy
    · rcases List.mem_cons.mp hy with rfl | hy
      · exact strict.asymm h
      · exact strict.not_left ((List.pairwise_cons.mp hleft).1 y hy hp) h
    · exact hb y hy hp
  | case4 a left b right h ih =>
    obtain ⟨ha, htail⟩ := List.pairwise_cons.mp hleft
    refine List.pairwise_cons.mpr ⟨fun y hy hp => ?_,
      ih (fun x hx => hl x (List.mem_cons_of_mem a hx)) hr htail hright⟩
    rcases mem_merge.mp hy with hy | hy
    · exact ha y hy hp
    · rcases List.mem_cons.mp hy with rfl | hright'
      · simpa using h
      · refine eq_false_of_ne_true fun hya => ?_
        rcases decides y (hr y hy) a (hl a (by simp)) b (hr b (by simp)) hp hya with hyb | hba
        · have hby := (List.pairwise_cons.mp hright).1 y hright' hp
          exact Bool.false_ne_true (hby.symm.trans hyb)
        · exact h hba

/-- Nothing in `p` precedes an element before it in the sorted list. -/
theorem sortBy_settles (strict : IsStrict before) {p : α → Prop} {items : List α}
    (decides : Decides before p items) :
    (sortBy before items).Pairwise fun a b => p b → before b a = false :=
  sortBy_of_merge_mem (fun _ run => run.Pairwise fun a b => p b → before b a = false) items .nil
    (fun a => List.pairwise_singleton _ a) fun _ _ _ _ hl hr => merge_settles strict decides hl hr

/-- What one element in `p` precedes is preceded by all of them. -/
def Alike (before : α → α → Bool) (p : α → Prop) (items : List α) : Prop :=
  ∀ x ∈ items, ∀ y ∈ items, ∀ a ∈ items, p x → p y → before y a = true → before x a = true

theorem merge_filter (strict : IsStrict before) {p : α → Bool} {items left right : List α}
    (alike : Alike before (p · = true) items) (hl : ∀ x ∈ left, x ∈ items)
    (hr : ∀ x ∈ right, x ∈ items)
    (hleft : left.Pairwise fun a b => p b = true → before b a = false) :
    (merge before left right).filter p = left.filter p ++ right.filter p := by
  fun_induction merge before left right with
  | case1 right => simp
  | case2 left hne => simp
  | case3 a left b right h ih =>
    have ih := ih hl (fun x hx => hr x (List.mem_cons_of_mem b hx)) hleft
    rw [List.filter_cons, ih]
    by_cases hpb : p b = true
    · -- all of `p` would precede the first of the left run as `b` does
      have hnone : (a :: left).filter p = [] := by
        refine List.filter_eq_nil_iff.mpr fun x hx hpx => ?_
        have hxa := alike x (hl x hx) b (hr b (by simp)) a (hl a (by simp)) hpx hpb h
        have hnot : before x a = false := by
          rcases List.mem_cons.mp hx with rfl | hx
          · exact strict.irrefl x
          · exact (List.pairwise_cons.mp hleft).1 x hx hpx
        exact Bool.false_ne_true (hnot.symm.trans hxa)
      simp [hpb, hnone]
    · simp [hpb]
  | case4 a left b right h ih =>
    have ih := ih (fun x hx => hl x (List.mem_cons_of_mem a hx)) hr
      (List.pairwise_cons.mp hleft).2
    simp only [List.filter_cons (x := a), ih]
    split <;> rfl

/-- Elements that compare alike keep their order among themselves. -/
theorem sortBy_filter (strict : IsStrict before) {p : α → Bool} {items : List α}
    (decides : Decides before (p · = true) items) (alike : Alike before (p · = true) items) :
    (sortBy before items).filter p = items.filter p := by
  refine (sortBy_of_merge_mem (fun s run =>
    (run.Pairwise fun a b => p b = true → before b a = false) ∧ run.filter p = s.filter p)
    items ⟨.nil, rfl⟩ (fun a => ⟨List.pairwise_singleton _ a, rfl⟩) ?_).2
  rintro s t left right hl hr ⟨hleft, hfs⟩ ⟨hright, hft⟩
  refine ⟨merge_settles strict decides hl hr hleft hright, ?_⟩
  rw [merge_filter strict alike hl hr hleft, hfs, hft, List.filter_append]

/-- A list in which nothing in `p` stands after anything else. -/
theorem filter_append_filter {p : α → Bool} {items : List α}
    (h : items.Pairwise fun a b => p b = true → p a = true) :
    items.filter p ++ items.filter (!p ·) = items := by
  induction items with
  | nil => rfl
  | cons a items ih =>
    obtain ⟨ha, htail⟩ := List.pairwise_cons.mp h
    cases hp : p a with
    | true => simpa [hp] using ih htail
    | false =>
      have hnone : ∀ x ∈ items, p x = false := fun x hx =>
        Bool.eq_false_iff.mpr fun hpx => absurd (ha x hx hpx) (by simp [hp])
      have hfirst : items.filter p = [] :=
        List.filter_eq_nil_iff.mpr fun x hx => by simp [hnone x hx]
      have hrest : items.filter (!p ·) = items :=
        List.filter_eq_self.mpr fun x hx => by simp [hnone x hx]
      simp [hp, hfirst, hrest]

/-- Tied with every element of the list. -/
def alone (before : α → α → Bool) (items : List α) (v : α) : Bool := items.all (tied before v)

theorem sortBy_filter_alone (strict : IsStrict before) (items : List α) :
    (sortBy before items).filter (alone before items) = items.filter (alone before items) := by
  have hties {y a : α} (hy : alone before items y = true) (ha : a ∈ items) : before y a = false :=
    (tied_iff.mp (List.all_eq_true.mp hy a ha)).1
  refine sortBy_filter strict ?_ ?_
  · intro y _ a ha b _ hy h
    exact absurd h (Bool.eq_false_iff.mp (hties hy ha))
  · intro x _ y _ a ha _ hy h
    exact absurd h (Bool.eq_false_iff.mp (hties hy ha))

/-- The elements in order, ties as they stood. -/
structure IsStableSort (before : α → α → Bool) (items sorted : List α) : Prop where
  perm : sorted.Perm items
  ordered : sorted.Pairwise fun a b => before b a = false
  stable : ∀ v ∈ items, sorted.filter (tied before v) = items.filter (tied before v)

theorem sortBy_isStableSort (strict : IsStrict before) {items : List α}
    (ties : TiesTransitive before items) : IsStableSort before items (sortBy before items) where
  perm := sortBy_perm items
  ordered := by
    have hdecides : Decides before (fun _ => True) items :=
      fun y hy a ha b hb _ h => ties.between strict hy hb ha h
    simpa using sortBy_settles strict hdecides
  stable := by
    intro v hv
    refine sortBy_filter strict (fun y hy a ha b hb _ h => ties.between strict hy hb ha h) ?_
    intro x hx y hy a ha hpx hpy h
    have hyx := ties y hy v hv x hx (by rwa [tied_comm]) hpx
    have hbetween := ties.between strict hy hx ha h
    exact hbetween.resolve_left (Bool.eq_false_iff.mp (tied_iff.mp hyx).1)

/-- The elements that satisfy `q`, by an order that agrees on them, when none is tied to another. -/
theorem IsStableSort.filter {before' : α → α → Bool} {q : α → Bool} {items sorted : List α}
    (h : IsStableSort before items sorted)
    (hagree : ∀ v w, q v = true → q w = true → before' v w = before v w)
    (hties : ∀ v w, q v = true → tied before v w = true → q w = true) :
    IsStableSort before' (items.filter q) (sorted.filter q) where
  perm := h.perm.filter q
  ordered := by
    rw [List.pairwise_filter]
    exact h.ordered.imp fun {a b} hab hqa hqb => (hagree b a hqb hqa).trans hab
  stable := by
    intro v hv
    obtain ⟨hmem, hq⟩ := List.mem_filter.mp hv
    have hclass (w : α) : (tied before' v w && q w) = tied before v w := by
      cases hqw : q w with
      | true => simp [tied, hagree, hq, hqw]
      | false =>
        rw [Bool.and_false, eq_comm, ← Bool.not_eq_true]
        exact fun htied => absurd (hties v w hq htied) (by simp [hqw])
    simp only [List.filter_filter, hclass]
    exact h.stable v hmem

/-- There is only one such list. -/
theorem IsStableSort.unique (strict : IsStrict before) {items first second : List α}
    (h : IsStableSort before items first) (h' : IsStableSort before items second) :
    first = second := by
  have hperm := h.perm.trans h'.perm.symm
  have hsame : ∀ v ∈ first, first.filter (tied before v) = second.filter (tied before v) :=
    fun v hv => (h.stable v (h.perm.subset hv)).trans (h'.stable v (h.perm.subset hv)).symm
  have hfirst := h.ordered
  have hsecond := h'.ordered
  clear h h'
  induction first generalizing second with
  | nil => exact (List.nil_perm.mp hperm).symm
  | cons a first ih =>
    match second, hperm with
    | [], hperm => exact absurd hperm.length_eq (by simp)
    | b :: second, hperm =>
      have hself : tied before a a = true := tied_iff.mpr ⟨strict.irrefl a, strict.irrefl a⟩
      -- neither list has anything that precedes its first element
      have hba : before b a = false := by
        rcases List.mem_cons.mp (hperm.symm.subset (List.mem_cons_self ..)) with rfl | hb
        · exact strict.irrefl b
        · exact (List.pairwise_cons.mp hfirst).1 b hb
      have hab : before a b = false := by
        rcases List.mem_cons.mp (hperm.subset (List.mem_cons_self ..)) with rfl | ha
        · exact strict.irrefl a
        · exact (List.pairwise_cons.mp hsecond).1 a ha
      have hheads := hsame a (List.mem_cons_self ..)
      have htied : tied before a b = true := tied_iff.mpr ⟨hab, hba⟩
      rw [List.filter_cons_of_pos hself, List.filter_cons_of_pos htied] at hheads
      obtain rfl : a = b := (List.cons.inj hheads).1
      refine congrArg (a :: ·) (ih hperm.cons_inv (fun v hv => ?_) hfirst.of_cons hsecond.of_cons)
      have hv := hsame v (List.mem_cons_of_mem a hv)
      simp only [List.filter_cons] at hv
      split at hv
      · exact (List.cons.inj hv).2
      · exact hv

end Stencil.Sorting
