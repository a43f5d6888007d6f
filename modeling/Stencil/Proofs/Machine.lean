import Mathlib.Logic.Relation
import Stencil.Proofs.Scopes

/-!
# Runs step by step

A template is run by a machine that holds what is done next, what waits for it, and the state. The
machine has no bound on its inclusions but the depth of the scope, which it looks at where a
template is included. From the nodes of a template it reaches what their run gives, and stops there.
-/
namespace Stencil.Render.Machine

/-- What waits for the end of what runs. -/
inductive Pending where
  | rest (nodes : List Node)
  | place (l : Location)
  | capture (target : String)
  /-- The items of a loop from a position on. -/
  | loop (name : String) (items : LoopItems) (body : List Node) (index left : Nat)
  /-- An open inclusion, with the scope to go back to. -/
  | inclusion (caller : Scope)
  | outline (clauses : List (TagSource × List Node))

inductive Control where
  | nodes (nodes : List Node)
  /-- A node begins. -/
  | node (node : Node)
  | action (action : Action)
  | done (result : Except Error Signal)

/-- What a step goes on with, and what is to wait for it. -/
structure Launch where
  control : Control
  pending : List Pending := []

structure Config where
  control : Control
  pending : List Pending
  state : State

def Launch.finish (signal : Signal) : Launch := ⟨.done (.ok signal), []⟩

def Launch.nodes (nodes : List Node) : Launch := ⟨.nodes nodes, []⟩

/-- Go on as asked; a failure is a result. -/
def settle (waiting : List Pending) : Except Error Launch × State → Config
  | (.ok l, s) => ⟨l.control, l.pending ++ waiting, s⟩
  | (.error e, s) => ⟨.done (.error e), waiting, s⟩

def here : Render Scope := fun s => (.ok s.scope, s)

def openCapture : Render Unit := fun s => (.ok (), { s with captures := "" :: s.captures })

def closeCapture : Render String := fun s =>
  (.ok (s.captures.headD ""), { s with captures := s.captures.tail })

def branch (engine : Engine) : List (Guard × List Node) → Render Launch
  | [] => return .finish .normal
  | (guard, body) :: branches => do
    if ← guardHolds engine guard then return .nodes body else branch engine branches

def choice (engine : Engine) (subject : Value) (otherwise : List Node) :
    List (List Expr × List Node) → Render Launch
  | [] => return .nodes otherwise
  | (values, body) :: whens => do
    if ← anySame engine subject values then return .nodes body
    else choice engine subject otherwise whens

def nextItem (name : String) (items : LoopItems) (body : List Node) (index : Nat) :
    Nat → Render Launch
  | 0 => do
    modifyScope Scope.leaveLoop
    return .finish .normal
  | left + 1 => do
    modifyScope fun s =>
      (s.setLocal name (items.item index)).setLocal "forloop" (forloop index items.count)
    return ⟨.nodes body, [.loop name items body (index + 1) left]⟩

def nextClause : List (TagSource × List Node) → Render Launch
  | [] => do
    write ">"
    return .finish .normal
  | (tag, body) :: clauses => do
    write ("/" ++ tag.name ++ "|" ++ tag.args ++ "|")
    return ⟨.nodes body, [.outline clauses]⟩

/-- Open an inclusion, unless so many are open already as there may be. -/
def openInclusion (engine : Engine) (isolated : Bool) (template : Expr)
    (subject : Option (Expr × Option String)) (bindings : List (String × Expr)) :
    Render Launch := do
  let name := (← eval engine template).display
  let caller ← here
  if engine.options.maxIncludeDepth ≤ caller.depth then
    throw ⟨.recursiveInclude name engine.options.maxIncludeDepth, none⟩
  else do
    let included ← load engine name
    let params ← params engine name subject bindings
    modifyScope (Scope.child params isolated)
    return ⟨.nodes included.nodes, [.inclusion caller]⟩

def enter (engine : Engine) : Action → Render Launch
  | .nothing => return .finish .normal
  | .write s => do
    write s
    return .finish .normal
  | .emit e => do
    write (← eval engine e).display
    return .finish .normal
  | .assign target e => do
    let v ← eval engine e
    modifyScope (Scope.assign target v)
    return .finish .normal
  | .capture target body => do
    openCapture
    return ⟨.nodes body, [.capture target]⟩
  | .conditional branches => branch engine branches
  | .choice subject whens otherwise => do
    let v ← eval engine subject
    choice engine v otherwise whens
  | .loop name source modifiers body otherwise => do
    let items ← loopItems engine source modifiers
    if items.count = 0 then return .nodes otherwise
    else do
      modifyScope Scope.enterLoop
      nextItem name items body 0 items.count
  | .jump signal => return .finish signal
  | .cycle occurrence group values => do
    let key ← cycleKey engine occurrence group
    let position ← nextCycle key values.length
    match values[position]? with
    | some e => write (← eval engine e).display
    | none => pure ()
    return .finish .normal
  | .include isolated template subject bindings =>
    openInclusion engine isolated template subject bindings
  | .outline tag body clauses => do
    write ("<" ++ tag.name ++ "|" ++ tag.args ++ "|")
    return ⟨.nodes body, [.outline clauses]⟩

def resume : Pending → Except Error Signal → Render Launch
  | .rest nodes, .ok .normal => return .nodes nodes
  | .rest _, r => return .finish (← liftExcept r)
  | .place l, r => return .finish (← liftExcept (r.mapError (·.locatedAt l)))
  | .capture target, r => do
    let text ← closeCapture
    let signal ← liftExcept r
    modifyScope (Scope.assign target (.str text))
    return .finish signal
  | .loop name items body index left, .ok signal =>
    match signal with
    | .leave => nextItem name items body index 0
    | _ => nextItem name items body index left
  | .loop .., .error e => do
    modifyScope Scope.leaveLoop
    throw e
  | .inclusion caller, r => do
    modifyScope fun _ => caller
    let _ ← liftExcept r
    return .finish .normal
  | .outline clauses, .ok .normal => nextClause clauses
  | .outline _, r => do
    let signal ← liftExcept r
    writeSignal signal
    return .finish signal

/-- The configuration after one step, if the machine does not stand still. -/
def step (setting : Setting) : Config → Option Config
  | ⟨.nodes [], waiting, s⟩ => some ⟨.done (.ok .normal), waiting, s⟩
  | ⟨.nodes (node :: nodes), waiting, s⟩ => some (settle waiting
    ((do
      check setting.interrupt
      return ⟨.node node, [.rest nodes]⟩ : Render Launch) s))
  | ⟨.node (.text text), waiting, s⟩ => some (settle waiting
    ((do
      write text
      return .finish .normal : Render Launch) s))
  | ⟨.node (.output e l), waiting, s⟩ => some (settle waiting
    (locatedAt l (do
      write (← eval setting.engine e).display
      return .finish .normal) s))
  | ⟨.node (.tag _ _ l action), waiting, s⟩ => some ⟨.action action, .place l :: waiting, s⟩
  | ⟨.action action, waiting, s⟩ => some (settle waiting (enter setting.engine action s))
  | ⟨.done _, [], _⟩ => none
  | ⟨.done r, p :: waiting, s⟩ => some (settle waiting (resume p r s))

abbrev Steps (setting : Setting) : Config → Config → Prop :=
  Relation.ReflTransGen fun c d => step setting c = some d

def start (nodes : List Node) (s : State) : Config := ⟨.nodes nodes, [], s⟩

def stop (waiting : List Pending) (r : Except Error Signal × State) : Config :=
  ⟨.done r.1, waiting, r.2⟩

variable {setting : Setting} {P : Scope → Prop} {α : Type}

/-- Where `x` goes on, the machine comes to the result of `y`, in all states with such a scope. -/
def Performs (setting : Setting) (P : Scope → Prop) (x : Render Launch) (y : Render Signal) :
    Prop :=
  ∀ waiting s, P s.scope → Steps setting (settle waiting (x s)) (stop waiting (y s))

namespace Performs

theorem finish (signal : Signal) : Performs setting P (pure (.finish signal)) (pure signal) :=
  fun _ _ _ => .refl

theorem fail (e : Error) : Performs setting P (throw e) (throw e) := fun _ _ _ => .refl

theorem finish_after (z : Render α) (f : α → Signal) :
    Performs setting P (z >>= fun a => pure (.finish (f a))) (z >>= fun a => pure (f a)) := by
  intro waiting s _
  rcases hz : z s with ⟨e | a, t⟩
  · rw [bind_of_error hz, bind_of_error hz]
    exact .refl
  · rw [bind_of_ok hz, bind_of_ok hz]
    exact .refl

theorem seq {z : Render α} {f : α → Render Launch} {g : α → Render Signal}
    (hz : Leaves State.scope z) (h : ∀ a, Performs setting P (f a) (g a)) :
    Performs setting P (z >>= f) (z >>= g) := by
  intro waiting s hs
  have hscope := hz s
  rcases hr : z s with ⟨e | a, t⟩
  · rw [bind_of_error hr, bind_of_error hr]
    exact .refl
  · rw [bind_of_ok hr, bind_of_ok hr]
    rw [hr] at hscope
    exact h a waiting t (hscope ▸ hs)

theorem at_scope {x : Render Launch} {y : Render Signal}
    (h : ∀ c, P c → Performs setting (· = c) x y) : Performs setting P x y :=
  fun waiting s hs => h s.scope hs waiting s rfl

theorem here_bind {c : Scope} {f : Scope → Render Launch} {y : Render Signal}
    (h : Performs setting (· = c) (f c) y) : Performs setting (· = c) (here >>= f) y := by
  intro waiting s hs
  have hc : here s = (.ok c, s) := by rw [← hs]; rfl
  rw [bind_of_ok hc]
  exact h waiting s hs

theorem begins {action : Action} {y : Render Signal}
    (h : Performs setting P (enter setting.engine action) y) :
    Performs setting P (pure ⟨.action action, []⟩) y :=
  fun waiting s hs => .head rfl (h waiting s hs)

theorem resumes {control : Control} {y : Render Signal}
    (h : Performs setting P (pure ⟨control, []⟩) y) (p : Pending) (waiting : List Pending)
    {s : State} (hs : P s.scope) :
    Steps setting ⟨control, p :: waiting, s⟩ (settle waiting (resume p (y s).1 (y s).2)) :=
  (h (p :: waiting) s hs).tail rfl

theorem bind {control : Control} {p : Pending} {y : Render Signal} {k : Signal → Render Signal}
    (hy : Performs setting P (pure ⟨control, []⟩) y) (hP : ∀ s, P s.scope → P (y s).2.scope)
    (herror : ∀ e, resume p (.error e) = throw e)
    (hok : ∀ signal, Performs setting P (resume p (.ok signal)) (k signal)) :
    Performs setting P (pure ⟨control, [p]⟩) (y >>= k) := by
  intro waiting s hs
  refine (hy.resumes p waiting hs).trans ?_
  have hnext := hP s hs
  rcases hr : y s with ⟨e | signal, t⟩
  · rw [bind_of_error hr, herror]
    exact .refl
  · rw [hr] at hnext
    rw [bind_of_ok hr]
    exact hok signal waiting t hnext

end Performs

def Roomy (setting : Setting) (room : Nat) (s : Scope) : Prop :=
  setting.engine.options.maxIncludeDepth - s.depth = room

theorem Roomy.setLocal {room : Nat} {s : Scope} {name : String} {v : Value}
    (h : Roomy setting room s) : Roomy setting room (s.setLocal name v) := by
  rw [Roomy, Scope.depth_setLocal]
  exact h

def includerAt (setting : Setting) : Nat → Includer
  | 0 => none
  | room + 1 => some (runWithin setting room)

theorem runWithin_eq (setting : Setting) (room : Nat) :
    runWithin setting room = runNodes setting (includerAt setting room) := by
  cases room <;> rfl

theorem Roomy.of_bindsOnly {room : Nat} {targets : List String} {x : Render α}
    (h : BindsOnly targets x) {s : State} (hs : Roomy setting room s.scope) :
    Roomy setting room (x s).2.scope := by
  rw [Roomy, (h s).depth]
  exact hs

theorem load_leaves_scope (engine : Engine) (name : String) :
    Leaves State.scope (load engine name) := fun _ => rfl

/-- The machine performs the templates that are included where there is so much room. -/
def Includes (setting : Setting) (room : Nat) : Prop :=
  ∀ left, room = left + 1 → ∀ nodes,
    Performs setting (Roomy setting left) (pure (.nodes nodes)) (runWithin setting left nodes)

/-- An included template runs in a scope that is one deeper, with so much less room. -/
theorem inclusion_performed {room : Nat} (isolated : Bool) (template : Expr)
    (subject : Option (Expr × Option String)) (bindings : List (String × Expr))
    (ih : Includes setting room) :
    Performs setting (Roomy setting room)
      (openInclusion setting.engine isolated template subject bindings)
      (inclusion setting.engine (includerAt setting room) isolated template subject bindings) := by
  refine .seq (fun _ => rfl) fun v => .at_scope fun c hc => .here_bind ?_
  dsimp only
  rw [Roomy] at hc
  cases room with
  | zero =>
    rw [if_pos (by omega)]
    exact .fail _
  | succ left =>
    rw [if_neg (by omega)]
    refine .seq (load_leaves_scope _ _) fun included => ?_
    refine .seq (params_leaves _ _ _ _ _) fun params => ?_
    intro waiting s hs
    -- The scope to go back to is the one of `here`, since loading and the parameters leave it.
    subst hs
    have hroom : Roomy setting left (s.scope.child params isolated) := by
      simp only [Roomy, Scope.child]
      omega
    have h := (ih left rfl included.nodes).resumes (.inclusion s.scope) waiting
      (s := { s with scope := s.scope.child params isolated }) hroom
    rcases hr : runWithin setting left included.nodes
      { s with scope := s.scope.child params isolated } with ⟨r, t⟩
    rw [hr] at h
    have hstop : settle waiting (resume (.inclusion s.scope) r t) = stop waiting
        ((discard (inChild params isolated (runWithin setting left included.nodes)) >>=
          fun _ => (pure .normal : Render Signal)) s) := by
      rw [discard_eq_bind, bind_apply, bind_apply]
      simp only [inChild, hr]
      cases r <;> rfl
    rw [← hstop]
    exact h

/-- The items of a loop run one after the other, in the scope of the loop until it ends. -/
theorem items_performed {body : List Node} {y : Render Signal}
    (hbody : Performs setting P (pure (.nodes body)) y) (hy : ∀ s, P s.scope → P (y s).2.scope)
    (hset : ∀ (c : Scope) (name : String) (v : Value), P c → P (c.setLocal name v))
    (name : String) (items : LoopItems) (index left : Nat) :
    Performs setting P (nextItem name items body index left)
      (fun s => ((iterate name items y index left s).1,
        { (iterate name items y index left s).2 with
          scope := (iterate name items y index left s).2.scope.leaveLoop })) := by
  induction left generalizing index with
  | zero => exact fun _ _ _ => .refl
  | succ left ih =>
    intro waiting s hs
    simp only [nextItem, iterate]
    rw [bind_of_ok (modifyScope_apply _ s), bind_of_ok (modifyScope_apply _ s)]
    let entered : State := { s with
      scope := (s.scope.setLocal name (items.item index)).setLocal "forloop"
        (forloop index items.count) }
    have hentered : P entered.scope := hset _ _ _ (hset _ _ _ hs)
    refine (hbody.resumes (.loop name items body (index + 1) left) waiting hentered).trans ?_
    have hnext := hy entered hentered
    rw [bind_apply]
    change Steps setting _ (stop waiting _)
    rcases hr : y entered with ⟨e | signal, t⟩
    · exact .refl
    · rw [hr] at hnext
      cases signal with
      | leave => exact .refl
      | normal | next => exact ih (index + 1) waiting t hnext

theorem check_leaves_scope (interrupt : Interrupt) : Leaves State.scope (check interrupt) :=
  fun _ => rfl

variable {room : Nat}

-- The recursion is on the nodes. An included template is not among them: it runs where there is
-- less room, which `ih` is about.
mutual

/-- The machine comes from nodes to the result of their run. -/
theorem nodes_performed (ih : Includes setting room) : ∀ nodes : List Node,
    Performs setting (Roomy setting room) (pure (.nodes nodes))
      (runNodes setting (includerAt setting room) nodes)
  | [] => fun waiting s _ => .single rfl
  | node :: nodes => by
    have hnode : Performs setting (Roomy setting room) (pure ⟨.node node, [.rest nodes]⟩)
        (runNode setting (includerAt setting room) node >>= fun signal => match signal with
          | .normal => runNodes setting (includerAt setting room) nodes
          | signal => pure signal) := by
      refine (node_performed ih node).bind
        (fun s hs => hs.of_bindsOnly (runNode_bindsOnly setting _ node)) (fun e => rfl) ?_
      intro signal
      cases signal with
      | normal => exact nodes_performed ih nodes
      | leave | next => exact .finish _
    intro waiting s hs
    simp only [runNodes]
    refine .head rfl (Performs.seq (check_leaves_scope _) (fun _ => hnode) waiting s hs)

theorem node_performed (ih : Includes setting room) : ∀ node : Node,
    Performs setting (Roomy setting room) (pure ⟨.node node, []⟩)
      (runNode setting (includerAt setting room) node)
  | .text text => by
    intro waiting s hs
    simp only [runNode]
    exact .head rfl (Performs.finish_after (P := Roomy setting room) _ _ waiting s hs)
  | .output e l => by
    intro waiting s hs
    simp only [runNode]
    refine .head rfl ?_
    simp only [locatedAt, bind_apply, eval_apply]
    cases e.eval (setting.engine.environment s.scope) with
    | error err => exact .refl
    | ok v =>
      dsimp only
      rcases write v.display s with ⟨err | _, t⟩
      · exact .refl
      · exact .refl
  | .tag _ _ l action => by
    intro waiting s hs
    simp only [runNode]
    refine .head rfl (((action_performed ih action).begins.resumes (.place l) waiting hs).trans ?_)
    simp only [locatedAt]
    rcases runAction setting (includerAt setting room) action s with ⟨e | signal, t⟩
    · exact .refl
    · exact .refl

theorem action_performed (ih : Includes setting room) : ∀ action : Action,
    Performs setting (Roomy setting room) (enter setting.engine action)
      (runAction setting (includerAt setting room) action)
  | .nothing => .finish _
  | .write s => .finish_after _ _
  | .emit e => by
    simp only [enter, runAction]
    exact .seq (fun _ => rfl) fun v => .finish_after _ _
  | .assign target e => by
    simp only [enter, runAction]
    exact .seq (fun _ => rfl) fun v => .finish_after _ _
  | .capture target body => by
    intro waiting s hs
    simp only [enter, runAction]
    refine ((nodes_performed ih body).resumes (.capture target) waiting
      (s := { s with captures := "" :: s.captures }) hs).trans ?_
    rw [bind_apply, captured]
    rcases runNodes setting (includerAt setting room) body
      { s with captures := "" :: s.captures } with ⟨e | signal, t⟩
    · exact .refl
    · exact .refl
  | .conditional branches => by
    simp only [enter, runAction]
    exact branches_performed ih branches
  | .choice subject whens otherwise => by
    simp only [enter, runAction]
    exact .seq (fun _ => rfl) fun v => whens_performed ih v (nodes_performed ih otherwise) whens
  | .loop name source modifiers body otherwise => by
    simp only [enter, runAction]
    have hitems : Leaves State.scope (loopItems setting.engine source modifiers) :=
      (Leaves.evaluation _ _).loopItems trivial (fun _ _ => trivial) fun _ _ => trivial
    refine .seq hitems fun items => ?_
    split
    · exact nodes_performed ih otherwise
    · intro waiting s hs
      exact items_performed (nodes_performed ih body)
        (fun s hs => hs.of_bindsOnly (runNodes_bindsOnly setting _ body))
        (fun _ _ _ hc => hc.setLocal) name items 0 items.count waiting
        { s with scope := s.scope.enterLoop } hs
  | .jump signal => by
    simp only [enter, runAction]
    exact .finish _
  | .cycle occurrence group values => by
    simp only [enter, runAction]
    refine .seq ((Leaves.evaluation _ _).cycleKey _ fun _ _ => trivial) fun key => ?_
    refine .seq (fun _ => rfl) fun position => ?_
    cases values[position]? with
    | none => exact .finish _
    | some e => exact .seq (fun _ => rfl) fun v => .finish_after _ _
  | .include isolated template subject bindings => by
    simp only [enter, runAction]
    exact inclusion_performed isolated template subject bindings ih
  | .outline tag body clauses => by
    simp only [enter, runAction]
    refine .seq (write_leaves_scope _) fun _ => ?_
    refine (nodes_performed ih body).bind
      (fun s hs => hs.of_bindsOnly (runNodes_bindsOnly setting _ body)) (fun e => rfl) ?_
    intro signal
    cases signal with
    | normal => exact clauses_performed ih clauses
    | leave | next => exact .finish_after _ _

theorem branches_performed (ih : Includes setting room) : ∀ branches : List (Guard × List Node),
    Performs setting (Roomy setting room) (branch setting.engine branches)
      (runBranches setting (includerAt setting room) branches)
  | [] => by
    simp only [branch, runBranches]
    exact .finish _
  | (guard, body) :: branches => by
    simp only [branch, runBranches]
    refine .seq ((Leaves.evaluation _ _).guard fun _ _ => trivial) fun holds => ?_
    split
    · exact nodes_performed ih body
    · exact branches_performed ih branches

theorem whens_performed (ih : Includes setting room) (subject : Value) {otherwise : List Node}
    {y : Render Signal}
    (hy : Performs setting (Roomy setting room) (pure (.nodes otherwise)) y) :
    ∀ whens : List (List Expr × List Node), Performs setting (Roomy setting room)
      (choice setting.engine subject otherwise whens)
      (runWhens setting (includerAt setting room) subject y whens)
  | [] => by
    simp only [choice, runWhens]
    exact hy
  | (values, body) :: whens => by
    simp only [choice, runWhens]
    refine .seq ((Leaves.evaluation _ _).anySame subject fun _ _ => trivial) fun same => ?_
    split
    · exact nodes_performed ih body
    · exact whens_performed ih subject hy whens

theorem clauses_performed (ih : Includes setting room) : ∀ clauses : List (TagSource × List Node),
    Performs setting (Roomy setting room) (nextClause clauses)
      (runClauses setting (includerAt setting room) clauses)
  | [] => by
    simp only [nextClause, runClauses]
    exact .finish_after _ _
  | (tag, body) :: clauses => by
    simp only [nextClause, runClauses]
    refine .seq (write_leaves_scope _) fun _ => ?_
    refine (nodes_performed ih body).bind
      (fun s hs => hs.of_bindsOnly (runNodes_bindsOnly setting _ body)) (fun e => rfl) ?_
    intro signal
    cases signal with
    | normal => exact clauses_performed ih clauses
    | leave | next => exact .finish_after _ _

end

theorem runWithin_performed (setting : Setting) (room : Nat) (nodes : List Node) :
    Performs setting (Roomy setting room) (pure (.nodes nodes)) (runWithin setting room nodes) := by
  induction room generalizing nodes with
  | zero =>
    rw [runWithin_eq]
    exact nodes_performed (fun left h => by omega) nodes
  | succ room ih =>
    rw [runWithin_eq]
    refine nodes_performed (fun left h => ?_) nodes
    obtain rfl : room = left := by omega
    exact ih

/-- From the nodes of a template the machine comes to what their run gives. -/
theorem steps_run (setting : Setting) (nodes : List Node) (s : State) :
    Steps setting (start nodes s) (stop [] (run setting nodes s)) :=
  runWithin_performed setting _ nodes [] s rfl

/-- The machine goes one way: what it comes to at last, it comes to from everywhere on its way. -/
theorem Steps.onward {c d e : Config} (hd : Steps setting c d) (he : Steps setting c e)
    (hstop : step setting e = none) : Steps setting d e := by
  induction hd using Relation.ReflTransGen.head_induction_on with
  | refl => exact he
  | head hcd _ ih =>
    rcases Relation.ReflTransGen.cases_head he with rfl | ⟨f, hf, hfe⟩
    · rw [hstop] at hcd
      cases hcd
    · rw [hcd] at hf
      cases hf
      exact ih hfe

theorem Steps.eq_of_stop {c d e : Config} (hd : Steps setting c d) (he : Steps setting c e)
    (hdstop : step setting d = none) (hestop : step setting e = none) : d = e := by
  rcases Relation.ReflTransGen.cases_head (hd.onward he hestop) with h | ⟨f, hf, -⟩
  · exact h
  · rw [hdstop] at hf
    cases hf

end Stencil.Render.Machine
