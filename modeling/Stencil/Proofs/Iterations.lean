import Mathlib
import Stencil.Proofs.Items
import Stencil.Proofs.Scopes

/-!
# A scope for each iteration

A loop works in one layer, whose two variables it replaces for each item. That is as good as a new
layer for each item with these two variables and no other, since no body writes to the layer of a
loop. What a loop tells about itself is exact as long as its items can be counted by an integer.
-/
namespace Stencil

section Metadata

/-- The value has the natural number as a property. -/
def Value.Tells (v : Value) (key : String) (n : Nat) : Prop :=
  ∃ k : Int64, v.property key = some (.int k) ∧ k.toInt = n

/-- What a loop has to tell about itself at the item `i` of `n`. -/
structure Value.Describes (i n : Nat) (v : Value) : Prop where
  index : v.Tells "index" (i + 1)
  index0 : v.Tells "index0" i
  rindex : v.Tells "rindex" (n - i)
  rindex0 : v.Tells "rindex0" (n - i - 1)
  length : v.Tells "length" n
  first : v.property "first" = some (.bool (i = 0))
  last : v.property "last" = some (.bool (i = n - 1))

theorem Value.exists_ofNat {n : Nat} (h : n < 2 ^ 63) :
    ∃ k : Int64, Value.ofNat n = .int k ∧ k.toInt = n :=
  ⟨.ofNat n, if_pos h, Int64.toInt_ofNat_of_lt h⟩

theorem forloop_describes {i n : Nat} (hi : i < n) (hn : n < 2 ^ 63) :
    (forloop i n).Describes i n := by
  have htells {key : String} {k : Nat} (hk : k ≤ n)
      (hproperty : (forloop i n).property key = some (.ofNat k)) : (forloop i n).Tells key k := by
    obtain ⟨word, hword, hexact⟩ := Value.exists_ofNat (hk.trans_lt hn)
    exact ⟨word, by rw [hproperty, hword], hexact⟩
  have hlast : (forloop i n).property "last" = some (.bool (i + 1 = n)) := rfl
  exact ⟨htells hi rfl, htells hi.le rfl, htells (Nat.sub_le n i) rfl, htells (by omega) rfl,
    htells le_rfl rfl, rfl, by rw [hlast]; congr 3; exact propext (by omega)⟩

/-- The variables of an iteration. Where the loop variable has the name of what the loop tells about
itself, the item is not seen. -/
def iterationVars (name : String) (v : Value) (index count : Nat) : Bindings :=
  Table.insert "forloop" (forloop index count) [(name, v)]

variable {name : String} {v : Value} {index count : Nat}

theorem find?_iterationVars (key : String) :
    Table.find? key (iterationVars name v index count) =
      if key = "forloop" then some (forloop index count)
      else if key = name then some v else none := by
  split
  · rename_i hkey
    rw [hkey]
    exact Table.find?_insert_self _ _ _
  · rename_i hkey
    rw [iterationVars, Table.find?_insert_of_ne hkey]
    simp [Table.find?, eq_comm]

/-- Of two entries that are there, each is replaced in its place. -/
theorem insert_insert_pair {α : Type} (key other : String) (a b c d : α) :
    Table.insert key c (Table.insert other d (Table.insert key a [(other, b)])) =
      Table.insert key c [(other, d)] := by
  rcases lt_trichotomy key other with h | rfl | h
  · simp [Table.insert, h, h.ne, h.ne', not_lt_of_gt h]
  · simp [Table.insert]
  · simp [Table.insert, h.ne', not_lt_of_gt h]

end Metadata

namespace Render

variable {α : Type}

/-- Run in a scope of a loop that holds these variables and no other. -/
def inFresh (vars : Bindings) (x : Render α) : Render α := fun s =>
  let fresh : Layer := { kind := .loop, vars }
  let (result, t) := x { s with scope := { s.scope with layers := fresh :: s.scope.layers } }
  (result, { t with scope := t.scope.leaveLoop })

/-- Go on with a loop after an iteration that ended so. -/
def unlessLeft (rest : Render Signal) : Signal → Render Signal
  | .leave => return .normal
  | .normal => rest
  | .next => rest

/-- Run a body for each value of `count`, from a position on, in a scope of its own. -/
def runEach (name : String) (count : Nat) (body : Render Signal) (index : Nat) :
    List Value → Render Signal
  | [] => return .normal
  | v :: values => do
    let signal ← inFresh (iterationVars name v index count) body
    unlessLeft (runEach name count body (index + 1) values) signal

/-- A loop as it is meant: its values are found once, and each has a scope of its own. -/
def runLoop (setting : Setting) (includer : Includer) (name : String) (source : Expr)
    (m : LoopModifiers) (body otherwise : List Node) : Render Signal := do
  match ← loopValues setting.engine source m with
  | [] => runNodes setting includer otherwise
  | v :: values =>
    runEach name (values.length + 1) (runNodes setting includer body) 0 (v :: values)

/-- What a step comes to, without the innermost layer. -/
def dropLayer (r : Except Error α × State) : Except Error α × State :=
  (r.1, { r.2 with scope := r.2.scope.leaveLoop })

/-- The state with other variables in its innermost layer, that of a loop. -/
def withLoop (vars : Bindings) (s : State) : State :=
  { s with scope := { s.scope with layers := ⟨.loop, vars⟩ :: s.scope.layers.tail } }

theorem inFresh_leaveLoop (vars : Bindings) (x : Render α) (s : State) :
    inFresh vars x { s with scope := s.scope.leaveLoop } = dropLayer (x (withLoop vars s)) := rfl

/-- The layer of the loop is new, or as an iteration has left it. -/
def BetweenIterations (name : String) (count : Nat) (s : State) : Prop :=
  ∃ vars layers, s.scope.layers = ⟨.loop, vars⟩ :: layers ∧
    (vars = [] ∨ ∃ v i, vars = iterationVars name v i count)

variable {targets : List String} {body : Render Signal} {items : LoopItems} {name : String}
  {count : Nat} {s : State}

theorem BetweenIterations.enter (name : String) (count : Nat) (s : State) :
    BetweenIterations name count { s with scope := s.scope.enterLoop } :=
  ⟨[], s.scope.layers, rfl, .inl rfl⟩

/-- Whatever the layer of the loop has, the variables of the next iteration replace it. -/
theorem BetweenIterations.set (h : BetweenIterations name count s) (v : Value) (index : Nat) :
    { s with scope := (s.scope.setLocal name v).setLocal "forloop" (forloop index count) } =
      withLoop (iterationVars name v index count) s := by
  obtain ⟨vars, layers, hlayers, hvars⟩ := h
  have hnext : Table.insert "forloop" (forloop index count) (Table.insert name v vars) =
      iterationVars name v index count := by
    rcases hvars with rfl | ⟨w, i, rfl⟩
    · rfl
    · exact insert_insert_pair "forloop" name _ w _ v
  simp only [Scope.setLocal, withLoop, hlayers, Layer.set, hnext, List.tail]

/-- A body leaves the innermost layer as it was, as it belongs to a loop. -/
theorem BetweenIterations.after (hbody : BindsOnly targets body) (v : Value) (index : Nat) :
    BetweenIterations name count (body (withLoop (iterationVars name v index count) s)).2 := by
  have hkept := (hbody (withLoop (iterationVars name v index count) s)).layers
  obtain ⟨m, rest, hm, -, hlayers⟩ := List.forall₂_cons_left_iff.mp hkept
  obtain ⟨kind, vars⟩ := m
  have hkind : kind = .loop := hm.kind
  have hvars : vars = iterationVars name v index count := hm.loop rfl
  exact ⟨vars, rest, by rw [hlayers, hkind], .inr ⟨v, index, hvars⟩⟩

theorem iterate_succ (name : String) (index left : Nat) :
    iterate name items body index (left + 1) = (do
      modifyScope fun s => (s.setLocal name (items.item index)).setLocal "forloop"
        (forloop index items.count)
      let signal ← body
      unlessLeft (iterate name items body (index + 1) left) signal) := by
  rw [iterate]
  refine bind_congr fun _ => bind_congr fun signal => ?_
  cases signal with
  | normal | leave | next => rfl

theorem iterate_eq_runEach (hbody : BindsOnly targets body) {index : Nat} {values : List Value}
    (hitem : ∀ i (h : i < values.length), items.item (index + i) = values[i])
    (hs : BetweenIterations name items.count s) :
    dropLayer (iterate name items body index values.length s) =
      runEach name items.count body index values { s with scope := s.scope.leaveLoop } := by
  -- An iteration starts from the state that the one before it has left, so the state varies.
  induction values generalizing index s with
  | nil => rfl
  | cons v values ih =>
    have hfirst : items.item index = v := hitem 0 (Nat.zero_lt_succ _)
    have hrest (i : Nat) (hi : i < values.length) : items.item (index + 1 + i) = values[i] := by
      rw [Nat.add_right_comm, Nat.add_assoc]
      exact hitem (i + 1) (Nat.succ_lt_succ hi)
    let vars := iterationVars name v index items.count
    have hiterate : iterate name items body index (values.length + 1) s =
        (body >>= unlessLeft (iterate name items body (index + 1) values.length))
          (withLoop vars s) := by
      rw [iterate_succ, bind_of_ok (modifyScope_apply _ s), hfirst, hs.set v index]
    have hafter : BetweenIterations name items.count (body (withLoop vars s)).2 :=
      .after hbody v index
    have hfresh := inFresh_leaveLoop vars body s
    rw [List.length_cons, hiterate, runEach]
    rcases hr : body (withLoop vars s) with ⟨e | signal, t⟩
    · rw [hr] at hfresh
      rw [bind_of_error hr, bind_of_error hfresh]
      rfl
    · rw [hr] at hfresh hafter
      rw [bind_of_ok hr, bind_of_ok hfresh]
      cases signal with
      | leave => rfl
      | normal | next => exact ih hrest hafter

/-- A loop runs its body for each value in a scope of its own. -/
theorem inLoop_iterate (hbody : BindsOnly targets body) {values : List Value}
    (h : items.Lists values) :
    inLoop (iterate name items body 0 items.count) = runEach name values.length body 0 values := by
  funext s
  have hitem (i : Nat) (hi : i < values.length) : items.item (0 + i) = values[i] := by
    rw [Nat.zero_add]
    exact h.item i hi
  have hentered := iterate_eq_runEach hbody hitem (.enter name items.count s)
  rw [← h.count] at hentered ⊢
  exact hentered

/-- A loop over at most as many items as an integer counts does what is meant, from every state and
however its body ends. Its metadata are then exact, and an iteration sees the two variables that it
is given and no other one in its layer. -/
theorem runAction_loop_eq_runLoop (setting : Setting) (includer : Includer) (name : String)
    (source : Expr) (m : LoopModifiers) (body otherwise : List Node) (s : State)
    (hcount : ∀ values, (loopValues setting.engine source m s).1 = .ok values →
      values.length ≤ Int64.maxValue.toInt) :
    runAction setting includer (.loop name source m body otherwise) s =
        runLoop setting includer name source m body otherwise s ∧
      ∀ values, (loopValues setting.engine source m s).1 = .ok values → ∀ i < values.length,
        (forloop i values.length).Describes i values.length ∧
          ∀ v key, Table.find? key (iterationVars name v i values.length) =
            if key = "forloop" then some (forloop i values.length)
            else if key = name then some v else none := by
  have hmax : Int64.maxValue.toInt = 2 ^ 63 - 1 := rfl
  refine ⟨?_, fun values hvalues i hi => ⟨?_, fun v key => find?_iterationVars key⟩⟩
  · rw [runAction, runLoop]
    rcases loopItems_beside setting.engine source m s with
      ⟨e, hitems, hvalues⟩ | ⟨items, values, hitems, hvalues, hlists⟩
    · rw [bind_of_error hitems, bind_of_error hvalues]
    · have hlength := hcount values (by rw [hvalues])
      have h : items.Lists values := hlists (by rw [LoopItems.maxCount]; omega)
      rw [bind_of_ok hitems, bind_of_ok hvalues]
      cases values with
      | nil =>
        have hzero : items.count = 0 := h.count
        rw [if_pos hzero]
      | cons v values =>
        have hne : items.count ≠ 0 := by simp [h.count]
        rw [if_neg hne, inLoop_iterate (runNodes_bindsOnly setting includer body) h]
        rfl
  · have hlength := hcount values hvalues
    exact forloop_describes hi (by omega)

/-- A loop goes through the items that it was entered with, though its body empties the source. -/
theorem runAction_loop_eq_runLoop_emptied :
    let place : Location := ⟨none, 1, 1, 0⟩
    let body : List Node := [.output (.variable "x") place,
      .tag false "assign" place (.assign "xs" (.literal .nil))]
    let action : Action := .loop "x" (.variable "xs") { reversed := true } body []
    let s : State := { scope := .ofBindings [("xs", .list [.int 5, .int 7])] }
    let setting : Setting := { engine := {} }
    (runAction setting none action s).2.sink.held = "75".toUTF8 ∧
      runAction setting none action s =
        runLoop setting none "x" (.variable "xs") { reversed := true } body [] s := by
  intro place body action s setting
  have hheld : (runAction setting none action s).2.sink.held = "75".toUTF8 := by
    simp only [action, s, body, place, setting]
    cbv
  refine ⟨hheld, (runAction_loop_eq_runLoop setting none "x" (.variable "xs") { reversed := true }
    body [] s fun values hvalues => ?_).1⟩
  have htwo : (loopValues setting.engine (.variable "xs") { reversed := true } s).1 =
      .ok [.int 7, .int 5] := rfl
  rw [htwo] at hvalues
  cases hvalues
  decide

end Render

end Stencil
