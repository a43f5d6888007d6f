import Stencil.Proofs.Bounds
import Stencil.Proofs.Items

/-!
# Arithmetic without overflow

The items of a loop and what it tells about itself, computed on words: a range of 64 bits can have
more integers than 64 bits can count, so it is walked in 128. A loop on words stops at a trap. None
is met, since the index stays below the count and every integer of a stretch lies within the bounds
of the range; so a loop on words is the loop. With what is known of positions and quotients, no
arithmetic on the integers of a template overflows.
-/
namespace Stencil.Word

/-! ### Items of loops -/

/-- The items of a loop, computed on words. -/
structure Items where
  count : Word .size
  item : Word .size → Except Trap Value

/-- The number of integers between two bounds. -/
def total (first last : Word .int64) : Except Trap (Word .int128) := do
  return max (← (← (← last.cast .int128).sub (← first.cast .int128)).add 1) 0

def limited (left : Word .int128) : Option (Word .size) → Except Trap (Word .int128)
  | some n => do return min left (← n.cast .int128)
  | none => return left

/-- Where the integers start that an offset and a limit leave of a range, and how many they are. -/
def stretch (first last : Word .int64) (offset limit : Option (Word .size)) :
    Except Trap (Word .int128 × Word .int128) := do
  let all ← total first last
  let skipped := min (← (offset.getD 0).cast .int128) all
  let left ← limited (← all.sub skipped) limit
  return (← (← first.cast .int128).add skipped, left)

/-- The integer that is so many steps from the start of a stretch, or from its end. -/
def inStretch (start left step : Word .int128) (reversed : Bool) : Except Trap (Word .int128) :=
  if reversed then do (← (← start.add left).sub 1).sub step else start.add step

def rangeItem (start left : Word .int128) (reversed : Bool) (i : Word .size) :
    Except Trap Value := do
  let n ← inStretch start left (← i.cast .int128) reversed
  return .int (← n.cast .int64).toInt64

def ofRange (first last : Word .int64) (offset limit : Option (Word .size)) (reversed : Bool) :
    Except Trap Items := do
  let (start, left) ← stretch first last offset limit
  return ⟨(left.cast .size).toOption.getD (greatest .size), rangeItem start left reversed⟩

def ofList (items : List Value) : Except Trap Items := do
  return ⟨← lengthOf items, fun i => match items[i.toNat]? with
    | some v => .ok v
    | none => .error .outOfBounds⟩

/-- The loop finds on words what it finds in exact arithmetic. -/
structure Items.Finds (words : Items) (items : LoopItems) : Prop where
  count : words.count.toNat = items.count
  item : ∀ i : Word .size, i.toNat < items.count → words.item i = .ok (items.item i.toNat)

theorem cast_size_gives (w : Word .size) : Gives (w.cast .int128) w.toInt := by
  have hw := WordType.size_has.mp w.has
  exact cast_gives (WordType.int128_has.mpr (by omega))

theorem cast_int64_gives (w : Word .int64) : Gives (w.cast .int128) w.toInt := by
  have hw := WordType.int64_has.mp w.has
  exact cast_gives (WordType.int128_has.mpr (by omega))

theorem total_gives (first last : Word .int64) :
    Gives (total first last) (max (last.toInt - first.toInt + 1) 0) := by
  have hfirst := WordType.int64_has.mp first.has
  have hlast := WordType.int64_has.mp last.has
  obtain ⟨b, hb, hbvalue⟩ := cast_int64_gives last
  obtain ⟨a, ha, havalue⟩ := cast_int64_gives first
  obtain ⟨d, hd, hdvalue⟩ := sub_gives (a := b) (b := a) (WordType.int128_has.mpr (by omega))
  obtain ⟨n, hn, hnvalue⟩ := add_gives (a := d) (b := 1)
    (WordType.int128_has.mpr (by rw [toInt_one]; omega))
  refine ⟨max n 0, by rw [total, hb, ok_bind, ha, ok_bind, hd, ok_bind, hn, ok_bind]; rfl, ?_⟩
  rw [toInt_max, toInt_zero, hnvalue, hdvalue, hbvalue, havalue, toInt_one]

theorem limited_gives (left : Word .int128) (limit : Option (Word .size)) :
    Gives (limited left limit) (limit.elim left.toInt fun n => min left.toInt n.toInt) := by
  cases limit with
  | none => exact ⟨left, rfl, rfl⟩
  | some n =>
    obtain ⟨m, hm, hvalue⟩ := cast_size_gives n
    exact ⟨min left m, by rw [limited, hm, ok_bind]; rfl, by rw [toInt_min, hvalue]; rfl⟩

/-- How many integers of a range an offset leaves out. -/
def skipped (first last : Word .int64) (offset : Option (Word .size)) : Int :=
  min (offset.getD 0).toInt (max (last.toInt - first.toInt + 1) 0)

/-- How many integers of a range are left after an offset and a limit. -/
def remaining (first last : Word .int64) (offset limit : Option (Word .size)) : Int :=
  let rest := max (last.toInt - first.toInt + 1) 0 - skipped first last offset
  limit.elim rest fun n => min rest n.toInt

theorem skipped_range (first last : Word .int64) (offset : Option (Word .size)) :
    0 ≤ skipped first last offset ∧
      skipped first last offset ≤ max (last.toInt - first.toInt + 1) 0 := by
  have hoffset := WordType.size_has.mp (offset.getD 0).has
  rw [skipped]
  omega

theorem stretch_eq (first last : Word .int64) (offset limit : Option (Word .size)) :
    ∃ start left, stretch first last offset limit = .ok (start, left) ∧
      start.toInt = first.toInt + skipped first last offset ∧
      left.toInt = remaining first last offset limit := by
  have hfirst := WordType.int64_has.mp first.has
  have hlast := WordType.int64_has.mp last.has
  have hrange := skipped_range first last offset
  obtain ⟨all, hall, hallvalue⟩ := total_gives first last
  obtain ⟨o, ho, hovalue⟩ := cast_size_gives (offset.getD 0)
  obtain ⟨a, ha, havalue⟩ := cast_int64_gives first
  have hskipped : (min o all).toInt = skipped first last offset := by
    rw [toInt_min, hovalue, hallvalue, skipped]
  obtain ⟨r, hr, hrvalue⟩ := sub_gives (a := all) (b := min o all)
    (WordType.int128_has.mpr (by omega))
  obtain ⟨left, hleft, hleftvalue⟩ := limited_gives r limit
  obtain ⟨start, hstart, hstartvalue⟩ := add_gives (a := a) (b := min o all)
    (WordType.int128_has.mpr (by omega))
  refine ⟨start, left, ?_, by omega, ?_⟩
  · simp only [stretch, hall, ho, hr, hleft, ha, hstart, ok_bind]
    rfl
  · rw [hleftvalue, hrvalue, hallvalue, hskipped]
    rfl

/-- What is left lies within the range. -/
theorem remaining_range (first last : Word .int64) (offset limit : Option (Word .size)) :
    0 ≤ remaining first last offset limit ∧
    (0 < remaining first last offset limit → first.toInt + skipped first last offset +
      remaining first last offset limit ≤ last.toInt + 1) := by
  have hskipped := skipped_range first last offset
  cases limit with
  | none =>
    simp only [remaining, Option.elim]
    omega
  | some n =>
    have hn := WordType.size_has.mp n.has
    simp only [remaining, Option.elim]
    omega

section

variable {first last : Word .int64} {offset limit : Option (Word .size)}

theorem ofRange_eq (reversed : Bool) :
    LoopItems.ofRange first.toInt last.toInt (offset.map toNat) (limit.map toNat) reversed =
      let start := first.toInt + skipped first last offset
      let left := remaining first last offset limit
      ⟨min left.toNat LoopItems.maxCount, fun i =>
        .int (.ofInt (if reversed then start + left - 1 - i else start + i))⟩ := by
  have hoffset : (((offset.map toNat).getD 0 : Nat) : Int) = (offset.getD 0).toInt := by
    cases offset with
    | none => rfl
    | some n => exact toInt_toNat n
  simp only [LoopItems.ofRange, hoffset]
  cases limit with
  | none => rfl
  | some n =>
    simp only [Option.map_some, toInt_toNat]
    rfl

theorem inStretch_gives {start left step : Word .int128} (hstart : -2 ^ 63 ≤ start.toInt)
    (hend : start.toInt + left.toInt ≤ 2 ^ 63) (hstep : 0 ≤ step.toInt)
    (hleft : step.toInt < left.toInt) (reversed : Bool) :
    Gives (inStretch start left step reversed)
      (if reversed then start.toInt + left.toInt - 1 - step.toInt
        else start.toInt + step.toInt) := by
  cases reversed with
  | false => exact add_gives (WordType.int128_has.mpr (by omega))
  | true =>
    obtain ⟨a, ha, havalue⟩ := add_gives (a := start) (b := left)
      (WordType.int128_has.mpr (by omega))
    obtain ⟨b, hb, hbvalue⟩ := sub_gives (a := a) (b := 1)
      (WordType.int128_has.mpr (by rw [toInt_one]; omega))
    rw [toInt_one] at hbvalue
    simp only [inStretch, if_true, ha, hb, ok_bind, ← havalue, ← hbvalue]
    exact sub_gives (WordType.int128_has.mpr (by omega))

/-- An integer of a stretch is one of the range, in both directions. -/
theorem rangeItem_eq {start left : Word .int128} (hstart : first.toInt ≤ start.toInt)
    (hlast : start.toInt + left.toInt ≤ last.toInt + 1) (reversed : Bool) {i : Word .size}
    (hi : i.toInt < left.toInt) :
    ∃ n : Int64, rangeItem start left reversed i = .ok (.int n) ∧
      n.toInt = (if reversed then start.toInt + left.toInt - 1 - i.toInt
        else start.toInt + i.toInt) ∧
      first.toInt ≤ n.toInt ∧ n.toInt ≤ last.toInt := by
  have hfirst := WordType.int64_has.mp first.has
  have hend := WordType.int64_has.mp last.has
  have hposition := WordType.size_has.mp i.has
  obtain ⟨step, hstep, hvalue⟩ := cast_size_gives i
  obtain ⟨n, hn, hnvalue⟩ := inStretch_gives (show -2 ^ 63 ≤ start.toInt by omega)
    (show start.toInt + left.toInt ≤ 2 ^ 63 by omega) (show 0 ≤ step.toInt by omega)
    (show step.toInt < left.toInt by omega) reversed
  have hwithin : first.toInt ≤ n.toInt ∧ n.toInt ≤ last.toInt := by
    rw [hnvalue]
    split <;> omega
  obtain ⟨m, hm, hmvalue⟩ := cast_gives (u := .int64) (w := n) (WordType.int64_has.mpr (by omega))
  refine ⟨m.toInt64, by simp only [rangeItem, hstep, hn, hm, ok_bind]; rfl, ?_⟩
  rw [toInt_toInt64, hmvalue]
  exact ⟨by rw [hnvalue, hvalue], hwithin⟩

end

/-- More items than a loop can count are taken as the most that it can. -/
theorem toInt_clamped {left : Word .int128} (h : 0 ≤ left.toInt) :
    ((left.cast .size).toOption.getD (greatest .size)).toInt =
      min left.toInt (LoopItems.maxCount : Nat) := by
  have hmost : (LoopItems.maxCount : Int) = 2 ^ 64 - 1 := rfl
  rw [cast, ofInt_toOption, hmost]
  split
  · rename_i hhas
    have hrange := WordType.size_has.mp hhas
    change left.toInt = _
    omega
  · rename_i hhas
    rw [WordType.size_has] at hhas
    change (2 ^ 64 - 1 : Int) = _
    omega

theorem ofRange_finds (first last : Word .int64) (offset limit : Option (Word .size))
    (reversed : Bool) : ∃ items, ofRange first last offset limit reversed = .ok items ∧
      items.Finds (LoopItems.ofRange first.toInt last.toInt (offset.map toNat) (limit.map toNat)
        reversed) ∧
      ∀ i : Word .size, i.toInt < items.count.toInt → ∃ n : Int64, items.item i = .ok (.int n) ∧
        first.toInt ≤ n.toInt ∧ n.toInt ≤ last.toInt := by
  obtain ⟨start, left, hstretch, hstart, hleft⟩ := stretch_eq first last offset limit
  have hskipped := skipped_range first last offset
  obtain ⟨hnonneg, hwithin⟩ := remaining_range first last offset limit
  have hcount := toInt_clamped (show 0 ≤ left.toInt by omega)
  have hitem (i : Word .size) (hi : i.toInt < left.toInt) :=
    rangeItem_eq (show first.toInt ≤ start.toInt by omega)
      (show start.toInt + left.toInt ≤ last.toInt + 1 by
        have := WordType.size_has.mp i.has
        omega) reversed hi
  refine ⟨_, by rw [ofRange, hstretch, ok_bind]; rfl, ⟨?_, fun i hi => ?_⟩, fun i hi => ?_⟩
  · rw [ofRange_eq, ← hleft, toNat, hcount]
    change _ = min left.toInt.toNat LoopItems.maxCount
    omega
  · rw [ofRange_eq, ← hleft, ← hstart] at hi ⊢
    have hposition := toInt_toNat i
    have hbelow : i.toNat < min left.toInt.toNat LoopItems.maxCount := hi
    obtain ⟨n, hn, hvalue, -⟩ := hitem i (by omega)
    simp only [hn, hposition, ← hvalue, Int64.ofInt_toInt]
  · rw [hcount] at hi
    obtain ⟨n, hn, -, hrange⟩ := hitem i (by omega)
    exact ⟨n, hn, hrange⟩

theorem ofList_finds {items : List Value} (h : items.length < 2 ^ 64) :
    ∃ words, ofList items = .ok words ∧ words.Finds (LoopItems.ofList items) := by
  obtain ⟨count, hcount, hvalue⟩ := lengthOf_gives items h
  refine ⟨_, by rw [ofList, hcount, ok_bind]; rfl, ⟨?_, fun i hi => ?_⟩⟩
  · rw [(LoopItems.ofList_lists items).count, toNat_eq hvalue]
  · rw [(LoopItems.ofList_lists items).count] at hi
    simp only [(LoopItems.ofList_lists items).item _ hi, List.getElem?_eq_getElem hi]

/-! ### Runs of loops -/

/-- What a loop tells about itself. -/
def forloop (index count : Word .size) : Except Trap Value := do
  let next ← index.add 1
  let left ← count.sub index
  let after ← (← count.sub index).sub 1
  return .map [("first", .bool (index = 0)), ("index", .ofNat next.toNat),
    ("index0", .ofNat index.toNat), ("last", .bool (next = count)),
    ("length", .ofNat count.toNat), ("rindex", .ofNat left.toNat), ("rindex0", .ofNat after.toNat)]

theorem forloop_eq {index count : Word .size} (h : index.toNat < count.toNat) :
    forloop index count = .ok (Stencil.forloop index.toNat count.toNat) := by
  have hindex := toInt_toNat index
  have hcount := toInt_toNat count
  have hrange := WordType.size_has.mp count.has
  obtain ⟨next, hnext, hnextvalue⟩ := add_gives (a := index) (b := 1)
    (WordType.size_has.mpr (by rw [toInt_one]; omega))
  obtain ⟨left, hleft, hleftvalue⟩ := sub_gives (a := count) (b := index)
    (WordType.size_has.mpr (by omega))
  obtain ⟨after, hafter, haftervalue⟩ := sub_gives (a := left) (b := 1)
    (WordType.size_has.mpr (by rw [toInt_one]; omega))
  rw [toInt_one] at hnextvalue haftervalue
  have hnextnat : next.toNat = index.toNat + 1 := toNat_eq (by omega)
  have hleftnat : left.toNat = count.toNat - index.toNat := toNat_eq (by omega)
  have hafternat : after.toNat = count.toNat - index.toNat - 1 := toNat_eq (by omega)
  have hfirst : index = 0 ↔ index.toNat = 0 := toNat_inj.symm
  have hlast : next = count ↔ index.toNat + 1 = count.toNat := by rw [← toNat_inj, hnextnat]
  simp only [forloop, hnext, hleft, hafter, ok_bind, Stencil.forloop, hnextnat, hleftnat,
    hafternat, hfirst, hlast]
  rfl

/-- The item at a position and what the loop tells about itself there. -/
def visit (items : Items) (index : Nat) : Except Trap (Value × Value) := do
  let i ← ofInt .size index
  return (← items.item i, ← forloop i items.count)

/-- Go on after a body, unless it asks to leave the loop. -/
def goOn (rest : Render Signal) : Signal → Render Signal
  | .leave => return .normal
  | .normal => rest
  | .next => rest

/-- Run a body for the items from a position on. A trap ends the loop in the given way. -/
def iterate (trapped : Trap → Render Signal) (name : String) (items : Items)
    (body : Render Signal) (index : Nat) : Nat → Render Signal
  | 0 => return .normal
  | left + 1 =>
    match visit items index with
    | .error trap => trapped trap
    | .ok (item, about) => do
      Render.modifyScope fun s => (s.setLocal name item).setLocal "forloop" about
      goOn (iterate trapped name items body (index + 1) left) (← body)

theorem visit_eq {words : Items} {items : LoopItems} (h : words.Finds items) {index : Nat}
    (hindex : index < items.count) :
    visit words index = .ok (items.item index, Stencil.forloop index items.count) := by
  have hcount := WordType.size_has.mp words.count.has
  have htotal := h.count
  have hvalue := toInt_toNat words.count
  obtain ⟨i, hi, hposition⟩ := ofInt_gives (t := .size) (n := index)
    (WordType.size_has.mpr (by omega))
  have hnat : i.toNat = index := toNat_eq hposition
  have hitem := h.item i (by omega)
  have hforloop := forloop_eq (show i.toNat < words.count.toNat by omega)
  rw [hnat] at hitem
  rw [hnat, htotal] at hforloop
  rw [visit, hi, ok_bind, hitem, ok_bind, hforloop, ok_bind]
  rfl

/-- No trap is met, whatever the body does. -/
theorem iterate_eq (trapped : Trap → Render Signal) (name : String) {words : Items}
    {items : LoopItems} (h : words.Finds items) (body : Render Signal) {index left : Nat}
    (hleft : index + left ≤ items.count) :
    iterate trapped name words body index left = Render.iterate name items body index left := by
  induction left generalizing index with
  | zero => rfl
  | succ left ih =>
    have hrest := ih (show index + 1 + left ≤ items.count by omega)
    simp only [iterate, visit_eq h (show index < items.count by omega), Render.iterate, hrest]
    refine bind_congr fun _ => bind_congr fun signal => ?_
    cases signal <;> rfl

/-! ### Loops -/

/-- A modifier as a word. -/
def optional : Option Nat → Except Trap (Option (Word .size))
  | none => return none
  | some n => do return some (← ofInt .size n)

/-- The items of a range whose bounds and modifiers are taken as words. -/
def ofBounds (first last : Int) (offset limit : Option Nat) (reversed : Bool) :
    Except Trap Items := do
  ofRange (← ofInt .int64 first) (← ofInt .int64 last) (← optional offset) (← optional limit)
    reversed

/-- The items of a loop. -/
def loopItems (engine : Engine) (source : Expr) (m : LoopModifiers) :
    Render (Except Trap Items) := do
  let offset ← Render.modifier? engine m.offset
  let limit ← Render.modifier? engine m.limit
  match source with
  | .range first last => do
    let a ← Render.liftExcept (Expr.toInt (← Render.eval engine first))
    let b ← Render.liftExcept (Expr.toInt (← Render.eval engine last))
    return ofBounds a b offset limit m.reversed
  | source => do
    let v ← Render.eval engine source
    return ofList (restrict offset limit m.reversed v.loopItems)

/-- A loop that runs on words. A trap ends it in the given way. -/
def loop (trapped : Trap → Render Signal) (engine : Engine) (name : String) (source : Expr)
    (m : LoopModifiers) (body otherwise : Render Signal) : Render Signal := do
  match ← loopItems engine source m with
  | .error trap => trapped trap
  | .ok items =>
    if items.count = 0 then otherwise
    else Render.inLoop (iterate trapped name items body 0 items.count.toNat)

theorem optional_eq {n : Option Nat} (h : ∀ k ∈ n, k < 2 ^ 64) :
    ∃ w, optional n = .ok w ∧ w.map toNat = n := by
  cases n with
  | none => exact ⟨none, rfl, rfl⟩
  | some k =>
    have hk := h k rfl
    obtain ⟨w, hw, hvalue⟩ := ofInt_gives (t := .size) (n := k) (WordType.size_has.mpr (by omega))
    exact ⟨some w, by rw [optional, hw, ok_bind]; rfl, by rw [Option.map_some, toNat_eq hvalue]⟩

theorem ofBounds_finds {first last : Int} {offset limit : Option Nat}
    (hfirst : WordType.int64.Has first) (hlast : WordType.int64.Has last)
    (hoffset : ∀ k ∈ offset, k < 2 ^ 64) (hlimit : ∀ k ∈ limit, k < 2 ^ 64) (reversed : Bool) :
    ∃ words, ofBounds first last offset limit reversed = .ok words ∧
      words.Finds (LoopItems.ofRange first last offset limit reversed) := by
  obtain ⟨o, ho, hovalue⟩ := optional_eq hoffset
  obtain ⟨l, hl, hlvalue⟩ := optional_eq hlimit
  obtain ⟨words, hwords, hfinds, -⟩ := ofRange_finds ⟨first, hfirst⟩ ⟨last, hlast⟩ o l reversed
  rw [hovalue, hlvalue] at hfinds
  refine ⟨words, ?_, hfinds⟩
  rw [ofBounds, ofInt_of_has hfirst, ok_bind, ofInt_of_has hlast, ok_bind, ho, ok_bind, hl, ok_bind,
    hwords]

theorem toInt_has {v : Value} {n : Int} (h : Expr.toInt v = .ok n) : WordType.int64.Has n := by
  simp only [Expr.toInt] at h
  split at h
  · cases h
    exact (ofInt64 _).has
  · cases h
  · cases h

section

variable {engine : Engine} {s : State}

theorem modifier?_lt {e : Option Expr} {n : Option Nat}
    (h : (Render.modifier? engine e s).1 = .ok n) : ∀ k ∈ n, k < 2 ^ 64 := by
  cases e with
  | none =>
    cases h
    simp
  | some e =>
    revert h
    refine Render.bind_elim (P := fun r => r.1 = .ok n → _) (by rintro _ _ _ ⟨⟩) fun v t _ =>
      Render.bind_elim (P := fun r => r.1 = .ok n → _) (by rintro _ _ _ ⟨⟩) fun k u hk => ?_
    have hrange := WordType.int64_has.mp (toInt_has (congrArg Prod.fst hk))
    rintro ⟨⟩ _ ⟨⟩
    omega

/-- At a state that both leave alone, two computations fail alike or find the same items. -/
def FindAlike (s : State) (x : Render LoopItems) (y : Render (Except Trap Items)) : Prop :=
  (∃ e, x s = (.error e, s) ∧ y s = (.error e, s)) ∨
    ∃ items words, x s = (.ok items, s) ∧ y s = (.ok (.ok words), s) ∧ words.Finds items

theorem FindAlike.ret {items : LoopItems} {found : Except Trap Items}
    (h : ∃ words, found = .ok words ∧ words.Finds items) :
    FindAlike s (pure items) (pure found) := by
  obtain ⟨words, rfl, hfinds⟩ := h
  exact .inr ⟨items, words, rfl, rfl, hfinds⟩

theorem FindAlike.seq {γ : Type} {x : Render γ} {f : γ → Render LoopItems}
    {g : γ → Render (Except Trap Items)} (hx : Render.Leaves id x)
    (h : ∀ c, (x s).1 = .ok c → FindAlike s (f c) (g c)) : FindAlike s (x >>= f) (x >>= g) := by
  have hs : (x s).2 = s := hx s
  rcases hr : x s with ⟨e | c, t⟩
  · obtain rfl : t = s := by rwa [hr] at hs
    exact .inl ⟨e, Render.bind_of_error hr f, Render.bind_of_error hr g⟩
  · obtain rfl : t = s := by rwa [hr] at hs
    have hc := h c (by rw [hr])
    rwa [FindAlike, Render.bind_of_ok hr, Render.bind_of_ok hr]

theorem loopItems_findAlike {source : Expr} (m : LoopModifiers)
    (hsource : ∀ v, source.eval (engine.environment s.scope) = .ok v →
      v.loopItems.length < 2 ^ 63) :
    FindAlike s (Render.loopItems engine source m) (loopItems engine source m) := by
  refine .seq (Render.modifier?_leaves engine _) fun offset hoffset => ?_
  refine .seq (Render.modifier?_leaves engine _) fun limit hlimit => ?_
  cases source with
  | range first last =>
    refine .seq (fun _ => rfl) fun _ _ => .seq (fun _ => rfl) fun a ha => ?_
    refine .seq (fun _ => rfl) fun _ _ => .seq (fun _ => rfl) fun b hb => ?_
    exact .ret (ofBounds_finds (toInt_has ha) (toInt_has hb) (modifier?_lt hoffset)
      (modifier?_lt hlimit) m.reversed)
  | literal | empty | «variable» | property | index | not | binary | filtered =>
    refine .seq (fun _ => rfl) fun v hv => .ret (ofList_finds ?_)
    have hlength := hsource v hv
    rw [length_restrict]
    cases limit <;> simp only [Option.elim] <;> omega

/-- A loop ends on words like the loop, whatever a trap would do. -/
theorem runAction_loop (trapped : Trap → Render Signal) (setting : Setting)
    (includer : Render.Includer) (name : String) {source : Expr} (m : LoopModifiers)
    (body otherwise : List Node)
    (hsource : ∀ v, source.eval (setting.engine.environment s.scope) = .ok v →
      v.loopItems.length < 2 ^ 63) :
    loop trapped setting.engine name source m (Render.runNodes setting includer body)
        (Render.runNodes setting includer otherwise) s =
      Render.runAction setting includer (.loop name source m body otherwise) s := by
  rcases loopItems_findAlike m hsource with
    ⟨e, hitems, hwords⟩ | ⟨items, words, hitems, hwords, hfinds⟩
  · rw [loop, Render.runAction, Render.bind_of_error hwords, Render.bind_of_error hitems]
  · have hempty : words.count = 0 ↔ items.count = 0 := by
      rw [← toNat_inj, hfinds.count]
      rfl
    rw [loop, Render.runAction, Render.bind_of_ok hwords, Render.bind_of_ok hitems]
    simp only [hempty, hfinds.count, iterate_eq trapped name hfinds _ (Nat.zero_add _).le]

end

/-- Nothing that is computed on the integers of a template overflows or leaves its bounds: computed
on words, where every operation has to have a result in its type, positions of elements, bounds of
slices and the parts between them, quotients and remainders that are rounded down, the integers of a
range and what a loop tells about itself come out as in exact arithmetic. So a loop does on words
what it does, at every state and with every body, and never gets to what a trap would do. -/
theorem arithmetic_stays_in_range :
    (∀ (v : Value) (items : List Value) (i : Int64), v.resolve = .list items →
      items.length < 2 ^ 63 → element? items i = .ok (v.index (.int i))) ∧
    (∀ {α : Type} (items : List α) (start count : Int64), items.length < 2 ^ 63 →
      ∃ low high, boundsIn items (ofInt64 start) (ofInt64 count) = .ok (low, high) ∧
        Filter.sliceBounds items.length start.toInt count.toInt = (low.toNat, high.toNat) ∧
        (high.toNat - low.toNat : Int) = min (max count.toInt 0) (items.length - low.toNat) ∧
        part items low high = .ok (Filter.sliceOf items start.toInt count.toInt) ∧
        IsPart items low.toNat high.toNat (Filter.sliceOf items start.toInt count.toInt)) ∧
    (∀ args named, sliceLength (Filter.arg args 0) < 2 ^ 63 →
      ∃ v, slice args = .ok v ∧ Filter.slice.run args named = .ok v) ∧
    (∀ x y : Int64,
      floorDiv (ofInt64 x) (ofInt64 y) = .ok ((Arithmetic.floorDiv? x y).map ofInt64) ∧
        floorMod (ofInt64 x) (ofInt64 y) = .ok ((Arithmetic.floorMod? x y).map ofInt64)) ∧
    (∀ (first last : Int64) (offset limit : Option (Word .size)) (reversed : Bool),
      ∃ items, ofRange (ofInt64 first) (ofInt64 last) offset limit reversed = .ok items ∧
        items.Finds (LoopItems.ofRange first.toInt last.toInt (offset.map toNat)
          (limit.map toNat) reversed) ∧
        ∀ i : Word .size, i.toInt < items.count.toInt → ∃ n : Int64,
          items.item i = .ok (.int n) ∧ first.toInt ≤ n.toInt ∧ n.toInt ≤ last.toInt) ∧
    (∀ index count : Word .size, index.toNat < count.toNat →
      forloop index count = .ok (Stencil.forloop index.toNat count.toNat)) ∧
    ∀ (trapped : Trap → Render Signal) (setting : Setting) (includer : Render.Includer) (s : State)
      (name : String) (source : Expr) (m : LoopModifiers) (body otherwise : List Node),
      (∀ v, source.eval (setting.engine.environment s.scope) = .ok v →
        v.loopItems.length < 2 ^ 63) →
      loop trapped setting.engine name source m (Render.runNodes setting includer body)
          (Render.runNodes setting includer otherwise) s =
        Render.runAction setting includer (.loop name source m body otherwise) s := by
  refine ⟨fun v items i hv h => ?_, fun items start count h => ?_,
    fun args named h => slice_eq h named, fun x y => ⟨floorDiv_eq x y, floorMod_eq x y⟩,
    fun first last => ofRange_finds (ofInt64 first) (ofInt64 last), fun index count => forloop_eq,
    fun trapped setting includer s name source => runAction_loop trapped setting includer name⟩
  · rw [index_of_resolve i hv, element?_eq h]
  · obtain ⟨low, high, hbounds, hexact, hcount, hpart⟩ :=
      part_between_bounds h (ofInt64 start) (ofInt64 count)
    exact ⟨low, high, hbounds, hexact, hcount, hpart, isPart_of_part hpart⟩

/-- The least and the greatest integers as index, bounds and operands, all integers backwards, the
last of as many items as can be counted, and a loop over what is left of a list. -/
theorem arithmetic_stays_in_range_at_ends :
    let three : List Value := [.int 1, .int 2, .int 3]
    let shown : Value := .object 0 "object" [] (some (.list three))
    let args : List Value := [.str "abc", .int (-2), .int Int64.maxValue]
    let last : Word .size := ⟨0xFFFFFFFFFFFFFFFE, by decide⟩
    let l : Location := ⟨none, 1, 1, 0⟩
    let source : Expr := .literal shown
    let m : LoopModifiers := ⟨some (.literal (.int 2)), some (.literal (.int (-1))), true⟩
    let body : List Node := [.output (.property (.variable "forloop") "rindex0") l]
    let trapped : Trap → Render Signal := fun _ => throw ⟨.cancelled, none⟩
    shown.resolve = .list three ∧ three.length < 2 ^ 63 ∧
      element? three Int64.minValue = .ok (shown.index (.int Int64.minValue)) ∧
      (∃ low high, boundsIn three (ofInt64 Int64.minValue) (ofInt64 Int64.maxValue) =
        .ok (low, high) ∧ low.toNat = 0 ∧ high.toNat = 3) ∧
      sliceLength (Filter.arg args 0) < 2 ^ 63 ∧
      (∃ v, slice args = .ok v ∧ Filter.slice.run args [] = .ok v) ∧
      floorDiv (ofInt64 Int64.minValue) (ofInt64 (-1)) =
        .ok ((Arithmetic.floorDiv? Int64.minValue (-1)).map ofInt64) ∧
      (∃ items, ofRange (ofInt64 Int64.minValue) (ofInt64 Int64.maxValue) none none true =
        .ok items ∧ items.count.toNat = LoopItems.maxCount) ∧
      last.toNat < (greatest .size).toNat ∧
      forloop last (greatest .size) = .ok (Stencil.forloop last.toNat (greatest .size).toNat) ∧
      (∀ v, source.eval (({} : Engine).environment ({} : State).scope) = .ok v →
        v.loopItems.length < 2 ^ 63) ∧
      (loop trapped {} "x" source m (Render.runNodes ⟨{}, fun _ _ => false⟩ none body)
        (Render.runNodes ⟨{}, fun _ _ => false⟩ none []) {}).2.sink.held = "10".toUTF8 := by
  intro three shown args last l source m body trapped
  obtain ⟨helement, hbounds, hslice, hquotient, hrange, hforloop, hloop⟩ :=
    arithmetic_stays_in_range
  have hthree : three.length < 2 ^ 63 := by decide
  have hargs : sliceLength (Filter.arg args 0) < 2 ^ 63 := by decide
  have hlast : last.toNat < (greatest .size).toNat := by decide
  have hsource (v : Value)
      (hv : source.eval (({} : Engine).environment ({} : State).scope) = .ok v) :
      v.loopItems.length < 2 ^ 63 := by
    cases hv
    exact hthree
  obtain ⟨low, high, hlow, hexact, -⟩ := hbounds three Int64.minValue Int64.maxValue hthree
  have hpair : ((0, 3) : Nat × Nat) = (low.toNat, high.toNat) := hexact
  obtain ⟨items, hitems, hfinds, -⟩ := hrange Int64.minValue Int64.maxValue none none true
  refine ⟨rfl, hthree, helement shown three Int64.minValue rfl hthree,
    ⟨low, high, hlow, (congrArg Prod.fst hpair).symm, (congrArg Prod.snd hpair).symm⟩, hargs,
    hslice args [] hargs, (hquotient Int64.minValue (-1)).1, ⟨items, hitems, hfinds.count⟩, hlast,
    hforloop last _ hlast, hsource, ?_⟩
  rw [hloop trapped ⟨{}, fun _ _ => false⟩ none {} "x" source m body [] hsource]
  simp only [source, shown, three, m, body, l]
  cbv

end Stencil.Word
