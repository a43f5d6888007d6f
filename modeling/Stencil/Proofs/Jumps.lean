import Mathlib
import Stencil.Proofs.Steps

/-!
# Jumps and the loops around them

A run of nodes ends with the request of a jump only if that jump lies in no loop of the nodes. Where
every jump lies in the body of a loop, nodes that do not fail run to their end. An inclusion keeps
the requests of the included template to itself, and so does a loop that has an item.
-/
namespace Stencil

-- The count goes up in the body of a loop and not in what it runs without items.
mutual

/-- The jumps of nodes, each with the number of loops whose body it lies in, given how many the
nodes lie in. -/
def jumpsIn (loops : Nat) : List Node → List (Signal × Nat)
  | [] => []
  | node :: nodes => node.jumps loops ++ jumpsIn loops nodes

def Node.jumps (loops : Nat) : Node → List (Signal × Nat)
  | .text _ => []
  | .output .. => []
  | .tag _ _ _ action => action.jumps loops

def Action.jumps (loops : Nat) : Action → List (Signal × Nat)
  | .nothing => []
  | .write _ => []
  | .emit _ => []
  | .assign .. => []
  | .capture _ body => jumpsIn loops body
  | .conditional branches => branchJumps loops branches
  | .choice _ whens otherwise => whenJumps loops whens ++ jumpsIn loops otherwise
  | .loop _ _ _ body otherwise => jumpsIn (loops + 1) body ++ jumpsIn loops otherwise
  | .jump signal => [(signal, loops)]
  | .cycle .. => []
  | .include .. => []
  | .outline _ body clauses => jumpsIn loops body ++ clauseJumps loops clauses

def branchJumps (loops : Nat) : List (Guard × List Node) → List (Signal × Nat)
  | [] => []
  | (_, body) :: branches => jumpsIn loops body ++ branchJumps loops branches

def whenJumps (loops : Nat) : List (List Expr × List Node) → List (Signal × Nat)
  | [] => []
  | (_, body) :: whens => jumpsIn loops body ++ whenJumps loops whens

def clauseJumps (loops : Nat) : List (TagSource × List Node) → List (Signal × Nat)
  | [] => []
  | (_, body) :: clauses => jumpsIn loops body ++ clauseJumps loops clauses

end

/-- Every jump lies in the body of a loop. -/
def Confined (nodes : List Node) : Prop := ∀ jump ∈ jumpsIn 0 nodes, 0 < jump.2

instance (nodes : List Node) : Decidable (Confined nodes) :=
  inferInstanceAs (Decidable (∀ jump ∈ jumpsIn 0 nodes, 0 < jump.2))

namespace Render

variable {α : Type} {P : Signal → Prop} {setting : Setting} {includer : Includer}

/-- A run that ends with such signals only, unless it fails. -/
def Signals (P : Signal → Prop) (x : Render Signal) : Prop :=
  ∀ s signal t, x s = (.ok signal, t) → P signal

namespace Signals

theorem ret {signal : Signal} (h : P signal) : Signals P (pure signal) := by
  intro s other t heq
  cases heq
  exact h

theorem fail (e : Error) : Signals P (throw e) := nofun

theorem seq {z : Render α} {f : α → Render Signal} (h : ∀ a, Signals P (f a)) :
    Signals P (z >>= f) := by
  intro s
  apply bind_elim (P := fun r => ∀ signal t, r = (.ok signal, t) → P signal)
  · intro e t _ signal u heq
    cases heq
  · intro a t _
    exact h a t

theorem located {x : Render Signal} (l : Location) (h : Signals P x) :
    Signals P (locatedAt l x) := by
  intro s signal t heq
  simp only [locatedAt] at heq
  rcases hx : x s with ⟨e | other, u⟩
  · rw [hx] at heq
    cases heq
  · rw [hx] at heq
    cases heq
    exact h s _ _ hx

/-- What comes after such a run where it ends normally, and after a jump. -/
theorem onward {x y : Render Signal} {k : Signal → Render Signal} (hx : Signals P x)
    (hnormal : k .normal = y) (hy : Signals P y) (hleave : P .leave → Signals P (k .leave))
    (hnext : P .next → Signals P (k .next)) : Signals P (x >>= k) := by
  intro s
  apply bind_elim (P := fun r => ∀ signal t, r = (.ok signal, t) → P signal)
  · intro e t _ signal u heq
    cases heq
  · intro signal t hr
    cases signal with
    | normal =>
      rw [hnormal]
      exact hy t
    | leave => exact hleave (hx s .leave t hr) t
    | next => exact hnext (hx s .next t hr) t

/-- A loop ends its own jumps. -/
theorem iterate (hnormal : P .normal) (name : String) (items : LoopItems) (body : Render Signal)
    (index left : Nat) : Signals P (iterate name items body index left) := by
  induction left generalizing index with
  | zero => exact .ret hnormal
  | succ left ih =>
    refine .seq fun _ => .seq fun signal => ?_
    cases signal with
    | leave => exact .ret hnormal
    | normal | next => exact ih (index + 1)

theorem inclusion (hnormal : P .normal) (engine : Engine) (includer : Includer) (isolated : Bool)
    (template : Expr) (subject : Option (Expr × Option String)) (bindings : List (String × Expr)) :
    Signals P (inclusion engine includer isolated template subject bindings) := by
  refine .seq fun v => ?_
  cases includer with
  | none => exact .fail _
  | some run => exact .seq fun _ => .seq fun _ => .seq fun _ => .ret hnormal

theorem loop (hnormal : P .normal) {item : String} {source : Expr} {modifiers : LoopModifiers}
    {body otherwise : List Node} {s t u : State} {items : LoopItems} {signal : Signal}
    (hitems : loopItems setting.engine source modifiers s = (.ok items, u))
    (hcount : items.count ≠ 0)
    (h : runAction setting includer (.loop item source modifiers body otherwise) s =
      (.ok signal, t)) : P signal := by
  have hiterate := iterate hnormal item items (runNodes setting includer body) 0 items.count
  simp only [runAction] at h
  rw [bind_of_ok hitems, if_neg hcount] at h
  simp only [inLoop] at h
  rcases hr : Render.iterate item items (runNodes setting includer body) 0 items.count
    { u with scope := u.scope.enterLoop } with ⟨e | other, v⟩
  · rw [hr] at h
    cases h
  · rw [hr] at h
    cases h
    exact hiterate _ _ _ hr

-- The recursion is on the nodes. The body of a loop is left out: whatever it ends with, the loop
-- goes on or ends.
mutual

/-- A signal of nodes is that of a jump which lies in none of their loops. -/
theorem ofNodes (hnormal : P .normal) : ∀ nodes : List Node,
    (∀ signal, (signal, 0) ∈ jumpsIn 0 nodes → P signal) →
      Signals P (runNodes setting includer nodes)
  | [], _ => .ret hnormal
  | node :: nodes, h => by
    simp only [jumpsIn, List.mem_append] at h
    simp only [runNodes]
    refine .seq fun _ => ?_
    exact (ofNode hnormal node fun signal hs => h signal (.inl hs)).onward rfl
      (ofNodes hnormal nodes fun signal hs => h signal (.inr hs)) .ret .ret

theorem ofNode (hnormal : P .normal) : ∀ node : Node,
    (∀ signal, (signal, 0) ∈ node.jumps 0 → P signal) → Signals P (runNode setting includer node)
  | .text s, _ => by
    simp only [runNode]
    exact .seq fun _ => .ret hnormal
  | .output e l, _ => by
    simp only [runNode]
    exact .located l (.seq fun _ => .seq fun _ => .ret hnormal)
  | .tag _ _ l action, h => by
    simp only [runNode]
    exact .located l (ofAction hnormal action h)

theorem ofAction (hnormal : P .normal) : ∀ action : Action,
    (∀ signal, (signal, 0) ∈ action.jumps 0 → P signal) →
      Signals P (runAction setting includer action)
  | .nothing, _ => by
    simp only [runAction]
    exact .ret hnormal
  | .write s, _ => by
    simp only [runAction]
    exact .seq fun _ => .ret hnormal
  | .emit e, _ => by
    simp only [runAction]
    exact .seq fun _ => .seq fun _ => .ret hnormal
  | .assign target e, _ => by
    simp only [runAction]
    exact .seq fun _ => .seq fun _ => .ret hnormal
  | .capture target body, h => by
    simp only [Action.jumps] at h
    have hbody : Signals P (runNodes setting includer body) := ofNodes hnormal body h
    intro s signal t heq
    simp only [runAction, bind_apply, captured] at heq
    rcases hr : runNodes setting includer body { s with captures := "" :: s.captures } with
      ⟨e | other, u⟩
    · rw [hr] at heq
      cases heq
    · rw [hr] at heq
      cases heq
      exact hbody _ _ _ hr
  | .conditional branches, h => by
    simp only [runAction]
    exact ofBranches hnormal branches h
  | .choice subject whens otherwise, h => by
    simp only [Action.jumps, List.mem_append] at h
    simp only [runAction]
    exact .seq fun v => ofWhens hnormal v
      (ofNodes hnormal otherwise fun signal hs => h signal (.inr hs)) whens
      fun signal hs => h signal (.inl hs)
  | .loop item source modifiers body otherwise, h => by
    simp only [Action.jumps, List.mem_append] at h
    intro s signal t heq
    rcases hitems : loopItems setting.engine source modifiers s with ⟨e | items, u⟩
    · simp only [runAction] at heq
      rw [bind_of_error hitems] at heq
      cases heq
    · by_cases hcount : items.count = 0
      · simp only [runAction] at heq
        rw [bind_of_ok hitems, if_pos hcount] at heq
        exact ofNodes hnormal otherwise (fun signal hs => h signal (.inr hs)) u signal t heq
      · exact loop hnormal hitems hcount heq
  | .jump signal, h => by
    simp only [runAction]
    exact .ret (h signal List.mem_cons_self)
  | .cycle occurrence group values, _ => by
    simp only [runAction]
    refine .seq fun key => .seq fun position => ?_
    split
    · exact .seq fun _ => .seq fun _ => .ret hnormal
    · exact .ret hnormal
  | .include isolated template subject bindings, _ => by
    simp only [runAction]
    exact .inclusion hnormal _ _ _ _ _ _
  | .outline tag body clauses, h => by
    simp only [Action.jumps, List.mem_append] at h
    simp only [runAction]
    refine .seq fun _ => ?_
    exact (ofNodes hnormal body fun signal hs => h signal (.inl hs)).onward rfl
      (ofClauses hnormal clauses fun signal hs => h signal (.inr hs))
      (fun hs => .seq fun _ => .ret hs) fun hs => .seq fun _ => .ret hs

theorem ofBranches (hnormal : P .normal) : ∀ branches : List (Guard × List Node),
    (∀ signal, (signal, 0) ∈ branchJumps 0 branches → P signal) →
      Signals P (runBranches setting includer branches)
  | [], _ => by
    simp only [runBranches]
    exact .ret hnormal
  | (guard, body) :: branches, h => by
    simp only [branchJumps, List.mem_append] at h
    simp only [runBranches]
    refine .seq fun holds => ?_
    split
    · exact ofNodes hnormal body fun signal hs => h signal (.inl hs)
    · exact ofBranches hnormal branches fun signal hs => h signal (.inr hs)

theorem ofWhens (hnormal : P .normal) (subject : Value) {otherwise : Render Signal}
    (ho : Signals P otherwise) : ∀ whens : List (List Expr × List Node),
    (∀ signal, (signal, 0) ∈ whenJumps 0 whens → P signal) →
      Signals P (runWhens setting includer subject otherwise whens)
  | [], _ => by
    simp only [runWhens]
    exact ho
  | (values, body) :: whens, h => by
    simp only [whenJumps, List.mem_append] at h
    simp only [runWhens]
    refine .seq fun same => ?_
    split
    · exact ofNodes hnormal body fun signal hs => h signal (.inl hs)
    · exact ofWhens hnormal subject ho whens fun signal hs => h signal (.inr hs)

theorem ofClauses (hnormal : P .normal) : ∀ clauses : List (TagSource × List Node),
    (∀ signal, (signal, 0) ∈ clauseJumps 0 clauses → P signal) →
      Signals P (runClauses setting includer clauses)
  | [], _ => by
    simp only [runClauses]
    exact .seq fun _ => .ret hnormal
  | (tag, body) :: clauses, h => by
    simp only [clauseJumps, List.mem_append] at h
    simp only [runClauses]
    refine .seq fun _ => ?_
    exact (ofNodes hnormal body fun signal hs => h signal (.inl hs)).onward rfl
      (ofClauses hnormal clauses fun signal hs => h signal (.inr hs))
      (fun hs => .seq fun _ => .ret hs) fun hs => .seq fun _ => .ret hs

end

end Signals

/-- Nodes that end normally are followed by what comes after them. -/
theorem runNodes_append {nodes rest : List Node} {s t : State}
    (h : runNodes setting includer nodes s = (.ok .normal, t)) :
    runNodes setting includer (nodes ++ rest) s = runNodes setting includer rest t := by
  induction nodes generalizing s with
  | nil =>
    cases h
    rfl
  | cons node nodes ih =>
    simp only [List.cons_append, runNodes] at h ⊢
    rcases hcheck : check setting.interrupt s with ⟨e | _, u⟩
    · rw [bind_of_error hcheck] at h
      cases h
    · rw [bind_of_ok hcheck] at h ⊢
      rcases hnode : runNode setting includer node u with ⟨e | signal, v⟩
      · rw [bind_of_error hnode] at h
        cases h
      · rw [bind_of_ok hnode] at h ⊢
        cases signal with
        | normal => exact ih h
        | leave | next => cases h

/-- Nodes all of whose jumps lie in loops run to their end, and what follows them runs, if nothing
fails. An inclusion ends normally, whatever it includes, and so does a loop over some items. -/
theorem runNodes_confined (setting : Setting) (includer : Includer) :
    (∀ nodes, Confined nodes → ∀ s signal t,
      runNodes setting includer nodes s = (.ok signal, t) →
        signal = .normal ∧ ∀ rest,
          runNodes setting includer (nodes ++ rest) s = runNodes setting includer rest t) ∧
    (∀ isBlock name l isolated template subject bindings s signal t,
      runNode setting includer
        (.tag isBlock name l (.include isolated template subject bindings)) s = (.ok signal, t) →
        signal = .normal) ∧
    ∀ isBlock name l item source modifiers body otherwise s items u signal t,
      loopItems setting.engine source modifiers s = (.ok items, u) → items.count ≠ 0 →
      runNode setting includer
        (.tag isBlock name l (.loop item source modifiers body otherwise)) s = (.ok signal, t) →
        signal = .normal := by
  refine ⟨fun nodes hnodes s signal t h => ?_, ?_, ?_⟩
  · have hsignal : signal = .normal := by
      refine Signals.ofNodes (P := (· = .normal)) rfl nodes (fun other hother => ?_) s signal t h
      exact absurd (hnodes _ hother) (Nat.lt_irrefl 0)
    subst hsignal
    exact ⟨rfl, fun rest => runNodes_append h⟩
  · intro isBlock name l isolated template subject bindings s signal t h
    simp only [runNode, runAction] at h
    exact Signals.located l (.inclusion (P := (· = .normal)) rfl _ _ _ _ _ _) s signal t h
  · intro isBlock name l item source modifiers body otherwise s items u signal t hitems hcount h
    simp only [runNode, locatedAt] at h
    rcases hr : runAction setting includer (.loop item source modifiers body otherwise) s with
      ⟨e | other, v⟩
    · rw [hr] at h
      cases h
    · rw [hr] at h
      cases h
      exact Signals.loop (P := (· = .normal)) rfl hitems hcount hr

/-- A loop over two items whose body leaves it at the first one is followed by the text after it. A
template that does nothing but leave ends its inclusion, and nothing else. -/
theorem runNodes_confined_leave :
    let place : Location := ⟨none, 1, 1, 0⟩
    let leave : Node := .tag false "break" place (.jump .leave)
    let numbers : Expr := .range (.literal (.int 1)) (.literal (.int 2))
    let loop : Action := .loop "x" numbers {} [.text "a", leave, .text "b"] []
    let nodes : List Node := [.tag true "for" place loop]
    let inclusion : Action := .include false (.literal (.str "l")) none []
    let s : State := { cache := ⟨[("l", ⟨⟨[leave], ⟨"", none⟩⟩, none⟩)]⟩ }
    let setting : Setting := { engine := {} }
    let within : Includer := some (runWithin setting 0)
    Confined nodes ∧ ¬ Confined [leave] ∧
      (∃ t, runNodes setting within (nodes ++ [.text "c"]) s =
        runNodes setting within [.text "c"] t ∧ t.sink.held = "a".toUTF8) ∧
      (∃ signal t, runNode setting within (.tag false "include" place inclusion) s =
        (.ok signal, t) ∧ signal = .normal) ∧
      ∃ signal t, runNode setting within (.tag true "for" place loop) s = (.ok signal, t) ∧
        signal = .normal := by
  intro place leave numbers loop nodes inclusion s setting within
  have hconfined : Confined nodes := by decide
  obtain ⟨hnodes, hinclusion, hloop⟩ := runNodes_confined setting within
  have hran : runNodes setting within nodes s =
      (.ok .normal, (runNodes setting within nodes s).2) := Prod.ext (by cbv) rfl
  have hincluded : runNode setting within (.tag false "include" place inclusion) s =
      (.ok .normal, (runNode setting within (.tag false "include" place inclusion) s).2) :=
    Prod.ext (by cbv) rfl
  have hlooped : runNode setting within (.tag true "for" place loop) s =
      (.ok .normal, (runNode setting within (.tag true "for" place loop) s).2) :=
    Prod.ext (by cbv) rfl
  have hheld : (runNodes setting within nodes s).2.sink.held = "a".toUTF8 := by cbv
  have hitems : (loopItems setting.engine numbers {} s).2 = s := rfl
  refine ⟨hconfined, by decide, ?_, ?_, ?_⟩
  · exact ⟨_, (hnodes nodes hconfined s _ _ hran).2 [.text "c"], hheld⟩
  · exact ⟨_, _, hincluded, hinclusion _ _ _ _ _ _ _ s _ _ hincluded⟩
  · exact ⟨_, _, hlooped, hloop _ _ _ _ _ _ _ _ s _ s _ _ (Prod.ext rfl hitems) (by decide) hlooped⟩

end Render

end Stencil
