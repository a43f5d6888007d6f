import Stencil.Proofs.Nesting
import Stencil.Proofs.RangeLoops
import Stencil.Proofs.Truncation

/-!
# Captures

What nodes print does not depend on what takes it: an open capture, a sink, or a sink that was given
something before. So a capture of nodes followed by an output of the variable prints what the nodes
print, and leaves the state that they leave but for the variable. Only a sink that refuses what it
is given makes a difference to the nodes, and a capture keeps it from them.
-/
namespace Stencil

/-- What takes the output of a run. -/
structure Outlet where
  captures : List String
  sink : Sink

theorem Sink.write_empty (k : Sink) : k.write "" = (.ok (), k) := by
  obtain ⟨held, limit, upper⟩ := k
  cases limit <;> cases upper <;> simp [Sink.write, Sink.encode]

theorem Sink.held_write (o : String) : (({} : Sink).write o).2.held = o.toUTF8 := by
  simp [Sink.write, Sink.encode]

namespace Outlet

/-- What is printed goes to the innermost capture, or else to the sink, which may refuse it. -/
def put (o : String) (w : Outlet) : Except OutputFault Unit × Outlet :=
  match w.captures with
  | buffer :: captures => (.ok (), ⟨(buffer ++ o) :: captures, w.sink⟩)
  | [] => ((w.sink.write o).1, ⟨[], (w.sink.write o).2⟩)

theorem put_empty (w : Outlet) : w.put "" = (.ok (), w) := by
  obtain ⟨captures, sink⟩ := w
  cases captures with
  | nil => simp only [put, Sink.write_empty]
  | cons buffer captures => simp only [put, String.append_empty]

/-- To print pieces is to print the whole. -/
theorem put_append (a b : String) (w : Outlet) :
    w.put (a ++ b) = match w.put a with
      | (.ok (), w') => w'.put b
      | (.error fault, w') => (.error fault, w') := by
  obtain ⟨captures, sink⟩ := w
  cases captures with
  | nil =>
    simp only [put, Sink.write_append]
    rcases sink.write a with ⟨fault | ⟨⟩, k⟩ <;> rfl
  | cons buffer captures => simp only [put, String.append_assoc]

end Outlet

/-- A state whose output goes to an outlet, and that was asked so often more whether to go on. -/
def State.into (s : State) (w : Outlet) (n : Nat) : State :=
  { s with captures := w.captures, sink := w.sink, checks := s.checks + n }

namespace Render

variable {α β : Type}

theorem write_into (o : String) (s : State) (w : Outlet) (n : Nat) :
    write o (s.into w n) = ((w.put o).1.mapError (⟨.output ·, none⟩), s.into (w.put o).2 n) := by
  obtain ⟨captures, sink⟩ := w
  cases captures <;> rfl

/-- A run that has ended because what it printed was refused by what takes the output, which is left
as `w`. -/
structure Refused (fault : OutputFault) (w : Outlet) (result : Except Error α × State) : Prop where
  error : result.1 = .error ⟨.output fault, none⟩
  captures : result.2.captures = w.captures
  sink : result.2.sink = w.sink

/-- A run that prints `o` and ends as `r` in `t`, unless `o` is refused. -/
structure Comes (r : Except Error α) (t : State) (o : String) (w : Outlet) (n : Nat)
    (result : Except Error α × State) : Prop where
  accepted {w' : Outlet} : w.put o = (.ok (), w') → result = (r, t.into w' n)
  refused {fault : OutputFault} {w' : Outlet} :
    w.put o = (.error fault, w') → Refused fault w' result

theorem Comes.silent {r : Except Error α} {t : State} {w : Outlet} {n : Nat} :
    Comes r t "" w n (r, t.into w n) where
  accepted h := by
    rw [w.put_empty] at h
    cases h
    rfl
  refused h := by
    rw [w.put_empty] at h
    cases h

/-- A run that has not ended with a refusal has ended as it does where nothing is refused. -/
theorem Comes.eq_of_not_refused {r r' : Except Error α} {t u : State} {o : String} {w : Outlet}
    {n : Nat} (h : Comes r t o w n (r', u)) (hr : ∀ fault, r' ≠ .error ⟨.output fault, none⟩) :
    r' = r ∧ ∃ w', w.put o = (.ok (), w') ∧ u = t.into w' n := by
  rcases hput : w.put o with ⟨fault | ⟨⟩, w'⟩
  · exact absurd (h.refused hput).error (hr fault)
  · obtain ⟨hresult, hstate⟩ := Prod.mk.inj (h.accepted hput)
    exact ⟨hresult, w', rfl, hstate⟩

/-- A step that does the same and prints the same whatever takes it. -/
def Prints (x : Render α) : Prop :=
  ∀ s : State, ∃ r t o, ∀ w n, Comes r t o w n (x (s.into w n))

namespace Prints

/-- A step that prints nothing and does not look at what takes the output. -/
theorem of_silent {x : Render α} (h : ∀ s w n, x (s.into w n) = ((x s).1, (x s).2.into w n)) :
    Prints x := by
  intro s
  refine ⟨(x s).1, (x s).2, "", fun w n => ?_⟩
  rw [h]
  exact .silent

theorem ret (a : α) : Prints (pure a : Render α) := of_silent fun _ _ _ => rfl

theorem write (text : String) : Prints (write text) := by
  intro s
  refine ⟨.ok (), s, text, fun w n => ?_⟩
  rw [write_into]
  constructor
  · intro w' h
    rw [h]
    rfl
  · intro fault w' h
    rw [h]
    exact ⟨rfl, rfl, rfl⟩

theorem seq {x : Render α} {f : α → Render β} (hx : Prints x) (hf : ∀ a, Prints (f a)) :
    Prints (x >>= f) := by
  intro s
  obtain ⟨r, t, o, hrun⟩ := hx s
  -- Where `x` is refused, both end with that, whatever would have come after it.
  have hrefused {w w' : Outlet} {n : Nat} {fault : OutputFault} (h : w.put o = (.error fault, w')) :
      Refused fault w' ((x >>= f) (s.into w n)) := by
    obtain ⟨herror, hcaptures, hsink⟩ := (hrun w n).refused h
    rw [bind_of_error (Prod.ext herror rfl : x (s.into w n) = (_, _))]
    exact ⟨rfl, hcaptures, hsink⟩
  cases r with
  | error e =>
    exact ⟨.error e, t, o, fun w n => ⟨fun h => bind_of_error ((hrun w n).accepted h) f, hrefused⟩⟩
  | ok a =>
    obtain ⟨r', t', o', hlater⟩ := hf a t
    refine ⟨r', t', o ++ o', fun w n => ?_⟩
    rcases hput : w.put o with ⟨fault | ⟨⟩, w'⟩
    · constructor
      · intro w'' h
        rw [Outlet.put_append, hput] at h
        cases h
      · intro fault' w'' h
        rw [Outlet.put_append, hput] at h
        cases h
        exact hrefused hput
    · have happend : w.put (o ++ o') = w'.put o' := by rw [Outlet.put_append, hput]
      rw [bind_of_ok ((hrun w n).accepted hput)]
      exact ⟨fun h => (hlater w' n).accepted (happend ▸ h),
        fun h => (hlater w' n).refused (happend ▸ h)⟩

/-- What is done to a state before a run, and to its outcome after it, without a look at what takes
the output. -/
theorem wrap (before : State → State)
    (after : State → Except Error α × State → Except Error β × State) {x : Render α} (h : Prints x)
    (hbefore : ∀ s w n, before (s.into w n) = (before s).into w n)
    (hafter : ∀ s w n r t w', after (s.into w n) (r, t.into w' n) =
      ((after s (r, t)).1, (after s (r, t)).2.into w' n))
    (hrefused : ∀ s fault w result, Refused fault w result → Refused fault w (after s result)) :
    Prints fun s => after s (x (before s)) := by
  intro s
  obtain ⟨r, t, o, hrun⟩ := h (before s)
  refine ⟨(after s (r, t)).1, (after s (r, t)).2, o, fun w n => ?_⟩
  dsimp only
  rw [hbefore]
  constructor
  · intro w' hput
    rw [(hrun w n).accepted hput]
    exact hafter s w n r t w'
  · intro fault w' hput
    exact hrefused _ _ _ _ ((hrun w n).refused hput)

theorem inLoop {x : Render α} (h : Prints x) : Prints (inLoop x) :=
  wrap (fun s => { s with scope := s.scope.enterLoop })
    (fun _ r => (r.1, { r.2 with scope := r.2.scope.leaveLoop })) h
    (fun _ _ _ => rfl) (fun _ _ _ _ _ _ => rfl) fun _ _ _ _ h => ⟨h.error, h.captures, h.sink⟩

theorem inChild (params : Bindings) (isolated : Bool) {x : Render α} (h : Prints x) :
    Prints (inChild params isolated x) :=
  wrap (fun s => { s with scope := s.scope.child params isolated })
    (fun s r => (r.1, { r.2 with scope := s.scope })) h
    (fun _ _ _ => rfl) (fun _ _ _ _ _ _ => rfl) fun _ _ _ _ h => ⟨h.error, h.captures, h.sink⟩

theorem locatedAt (l : Location) {x : Render α} (h : Prints x) : Prints (locatedAt l x) := by
  refine wrap (fun s => s) (fun _ r => (r.1.mapError (Error.locatedAt l), r.2)) h
    (fun _ _ _ => rfl) (fun _ _ _ _ _ _ => rfl) fun _ fault _ result h => ⟨?_, h.captures, h.sink⟩
  dsimp only
  rw [h.error]
  rfl

/-- A capture takes what is printed and refuses nothing. -/
theorem captured_eq {x : Render α} {s t : State} {r : Except Error α} {o : String}
    (h : ∀ w n, Comes r t o w n (x (s.into w n))) (w : Outlet) (n : Nat) :
    captured x (s.into w n) = (r.map (·, o), t.into w n) := by
  have hrun : x (s.into ⟨"" :: w.captures, w.sink⟩ n) =
      (r, t.into ⟨o :: w.captures, w.sink⟩ n) := by
    refine (h _ n).accepted ?_
    simp only [Outlet.put, String.empty_append]
  have hstart : { s.into w n with captures := "" :: (s.into w n).captures } =
      s.into ⟨"" :: w.captures, w.sink⟩ n := rfl
  rw [captured, hstart, hrun]
  rfl

theorem captured {x : Render α} (h : Prints x) : Prints (captured x) := by
  intro s
  obtain ⟨r, t, o, hrun⟩ := h s
  refine ⟨r.map (·, o), t, "", fun w n => ?_⟩
  rw [captured_eq hrun w n]
  exact .silent

/-- Nobody stops the run, so how often it is asked does not matter. -/
theorem check : Prints (check fun _ _ => false) := by
  intro s
  refine ⟨.ok (), { s with checks := s.checks + 1 }, "", fun w n => ?_⟩
  have hcheck : Render.check (fun _ _ => false) (s.into w n) =
      (.ok (), ({ s with checks := s.checks + 1 } : State).into w n) := by
    simp [Render.check, State.into, Nat.add_right_comm]
  rw [hcheck]
  exact .silent

theorem evaluation (engine : Engine) :
    EvalCongruence engine engine (fun _ => True) fun x _ => Prints x where
  ret := .ret
  seq := .seq
  toInt _ := .of_silent fun _ _ _ => rfl
  eval _ := .of_silent fun _ _ _ => rfl
  bounds _ := ⟨trivial, trivial⟩

theorem load (engine : Engine) (name : String) : Prints (load engine name) :=
  .of_silent fun _ _ _ => rfl

theorem params (engine : Engine) (name : String) (subject : Option (Expr × Option String))
    (bindings : List (String × Expr)) : Prints (params engine name subject bindings) := by
  cases subject with
  | none => exact .seq (.ret _) fun _ => .of_silent fun _ _ _ => rfl
  | some subject =>
    obtain ⟨e, given?⟩ := subject
    refine .seq (.of_silent fun _ _ _ => rfl) fun v => ?_
    exact .seq (.ret _) fun start => .of_silent fun _ _ _ => rfl

theorem inclusion (engine : Engine) {includer : Includer}
    (h : ∀ run, includer = some run → ∀ nodes, Prints (run nodes)) (isolated : Bool)
    (template : Expr) (subject : Option (Expr × Option String)) (bindings : List (String × Expr)) :
    Prints (inclusion engine includer isolated template subject bindings) := by
  refine .seq (.of_silent fun _ _ _ => rfl) fun v => ?_
  cases includer with
  | none => exact .of_silent fun _ _ _ => rfl
  | some run =>
    refine .seq (load engine _) fun included => .seq (params engine _ _ _) fun params => ?_
    have hrun := (h run rfl included.nodes).inChild params isolated
    exact .seq (.seq hrun fun _ => .ret _) fun _ => .ret _

theorem congruence (engine : Engine) {includer : Includer}
    (h : ∀ run, includer = some run → ∀ nodes, Prints (run nodes)) :
    Congruence ⟨engine, fun _ _ => false⟩ ⟨engine, fun _ _ => false⟩ includer includer
      (fun _ => True) fun x _ => Prints x where
  toEvalCongruence := evaluation engine
  check := check
  write := write
  assign _ _ := .of_silent fun _ _ _ => rfl
  loop name items count x _ hx := by
    have hset (v w : Value) : Prints (modifyScope fun s =>
        (s.setLocal name v).setLocal "forloop" w) := .of_silent fun _ _ _ => rfl
    exact ((evaluation engine).iterate (y := x) name hset items hx 0 count).inLoop
  captured := captured
  nextCycle _ _ := .of_silent fun _ _ _ => rfl
  located _ := locatedAt _
  inclusion _ := inclusion engine h _ _ _ _

end Prints

section Runs

variable {engine : Engine} {setting : Setting} {includer : Includer}

/-- All templates print, however deep they are included. -/
theorem runWithin_prints (engine : Engine) (room : Nat) (nodes : List Node) :
    Prints (runWithin ⟨engine, fun _ _ => false⟩ room nodes) :=
  Congruence.within (fun _ h => Prints.congruence engine h) room nodes

theorem located_placed (l : Location) (x : Render α) : FailsOnly Error.Placed (locatedAt l x) :=
  fun _ => .mapError (fun _ _ => trivial) fun e _ => Error.placed_locatedAt l e

theorem runNode_placed (node : Node) : FailsOnly Error.Placed (runNode setting includer node) := by
  cases node with
  | text text => exact .seq (.write (fun _ _ => rfl) text) fun _ => .ret _
  | output e l => exact located_placed l _
  | tag isBlock name l action => exact located_placed l _

/-- No error of nodes is given another place by what is around them. -/
theorem runNodes_placed (setting : Setting) (includer : Includer) (nodes : List Node) :
    FailsOnly Error.Placed (runNodes setting includer nodes) := by
  induction nodes with
  | nil => exact .ret _
  | cons node nodes ih =>
    refine .seq (.check (fun _ => rfl) _) fun _ => .seq (runNode_placed node) fun signal => ?_
    cases signal with
    | normal => exact ih
    | leave | next => exact .ret _

section NotInterrupted

variable {node : Node} {nodes : List Node} {s t : State}

theorem check_never (s : State) :
    check (fun _ _ => false) s = (.ok (), { s with checks := s.checks + 1 }) := rfl

theorem runNodes_cons_of_ok
    (h : runNode ⟨engine, fun _ _ => false⟩ includer node { s with checks := s.checks + 1 } =
      (.ok .normal, t)) :
    runNodes ⟨engine, fun _ _ => false⟩ includer (node :: nodes) s =
      runNodes ⟨engine, fun _ _ => false⟩ includer nodes t := by
  rw [runNodes, bind_of_ok (check_never s), bind_of_ok h]

theorem runNodes_cons_of_error {e : Error}
    (h : runNode ⟨engine, fun _ _ => false⟩ includer node { s with checks := s.checks + 1 } =
      (.error e, t)) :
    runNodes ⟨engine, fun _ _ => false⟩ includer (node :: nodes) s = (.error e, t) := by
  rw [runNodes, bind_of_ok (check_never s), bind_of_error h]

theorem runNodes_singleton {r : Except Error Signal}
    (h : runNode ⟨engine, fun _ _ => false⟩ includer node { s with checks := s.checks + 1 } =
      (r, t)) :
    runNodes ⟨engine, fun _ _ => false⟩ includer [node] s = (r, t) := by
  cases r with
  | error e => exact runNodes_cons_of_error h
  | ok signal =>
    rw [runNodes, bind_of_ok (check_never s), bind_of_ok h]
    cases signal <;> rfl

end NotInterrupted

section Capture

variable {body : List Node} {s t : State} {o : String} {w w' : Outlet}

/-- The variable becomes what the body printed. -/
theorem runNode_capture_of_ok {signal : Signal}
    (h : ∀ w n, Comes (.ok signal) t o w n (runNodes setting includer body (s.into w n)))
    (target : String) (l : Location) (w : Outlet) (n : Nat) :
    runNode setting includer (.tag true "capture" l (.capture target body)) (s.into w n) =
      (.ok signal, ({ t with scope := t.scope.assign target (.str o) } : State).into w n) := by
  rw [runNode]
  exact locatedAt_of_ok l (runAction_capture setting includer (Prints.captured_eq h w n))

/-- A capture fails as its body does, whose errors have their places. -/
theorem runNode_capture_of_error {e : Error}
    (h : ∀ w n, Comes (.error e) t o w n (runNodes setting includer body (s.into w n)))
    (target : String) (l : Location) (w : Outlet) (n : Nat) :
    runNode setting includer (.tag true "capture" l (.capture target body)) (s.into w n) =
      (.error e, t.into w n) := by
  have hplaced : e.Placed := by
    have hbody := runNodes_placed setting includer body (s.into ⟨[""], {}⟩ 0)
    rwa [(h ⟨[""], {}⟩ 0).accepted rfl] at hbody
  have haction : runAction setting includer (.capture target body) (s.into w n) =
      (.error e, t.into w n) := by
    rw [runAction]
    exact bind_of_error (Prints.captured_eq h w n) _
  rw [runNode, locatedAt_of_error l haction, hplaced l]

/-- A value is put out as it is displayed. -/
theorem runNode_output_of_eval {e : Expr} {v : Value} (l : Location)
    (heval : e.eval (setting.engine.environment s.scope) = .ok v)
    (hput : w.put v.display = (.ok (), w')) (n : Nat) :
    runNode setting includer (.output e l) (s.into w n) = (.ok .normal, s.into w' n) := by
  have hwrite : write v.display (s.into w n) = (.ok (), s.into w' n) := by
    rw [write_into, hput]
    rfl
  have hvalue : e.eval (setting.engine.environment (s.into w n).scope) = .ok v := heval
  rw [runNode]
  apply locatedAt_of_ok
  rw [bind_apply, eval_apply, hvalue]
  exact bind_of_ok hwrite _

/-- A string variable is put out as it stands. -/
theorem runNode_output_of_lookup {name : String} (l : Location)
    (hname : s.scope.lookup name = some (.str o)) (hput : w.put o = (.ok (), w')) (n : Nat) :
    runNode setting includer (.output (.variable name) l) (s.into w n) =
      (.ok .normal, s.into w' n) := by
  have heval : (Expr.variable name).eval (setting.engine.environment s.scope) = .ok (.str o) := by
    simp only [Expr.eval, Engine.environment, hname]
  exact runNode_output_of_eval l heval hput n

theorem runNodes_capture_output {target : String} (hscope : t.scope.WellFormed)
    (htarget : t.scope.loopVariable? target = none)
    (h : ∀ w n, Comes (.ok .normal) t o w n
      (runNodes ⟨engine, fun _ _ => false⟩ includer body (s.into w n)))
    (l₁ l₂ : Location) (hput : w.put o = (.ok (), w')) (n : Nat) :
    runNodes ⟨engine, fun _ _ => false⟩ includer
        [.tag true "capture" l₁ (.capture target body), .output (.variable target) l₂]
        (s.into w n) =
      (.ok .normal,
        ({ t with scope := t.scope.assign target (.str o) } : State).into w' (n + 2)) := by
  let bound : State := { t with scope := t.scope.assign target (.str o) }
  have houtput : runNode ⟨engine, fun _ _ => false⟩ includer (.output (.variable target) l₂)
      (bound.into w (n + 2)) = (.ok .normal, bound.into w' (n + 2)) :=
    runNode_output_of_lookup l₂ (hscope.lookup_assign htarget (.str o)) hput (n + 2)
  rw [runNodes_cons_of_ok (runNode_capture_of_ok h target l₁ w (n + 1))]
  exact runNodes_singleton houtput

/-- A capture writes nothing to what is around it. -/
theorem runNodes_capture_keeps {r : Except Error Signal}
    (h : ∀ w n, Comes r t o w n
      (runNodes ⟨engine, fun _ _ => false⟩ includer body (s.into w n)))
    (target : String) (l : Location) (w : Outlet) (n : Nat) :
    ∃ u : State, (runNodes ⟨engine, fun _ _ => false⟩ includer
      [.tag true "capture" l (.capture target body)] (s.into w n)).2 = u.into w (n + 1) := by
  cases r with
  | error e =>
    rw [runNodes_singleton (runNode_capture_of_error h target l w (n + 1))]
    exact ⟨t, rfl⟩
  | ok signal =>
    rw [runNodes_singleton (runNode_capture_of_ok h target l w (n + 1))]
    exact ⟨_, rfl⟩

end Capture

/-- If nodes end normally, a capture of them and an output of the variable print what they print and
leave what they leave, with the variable. If they fail, and not because the output is refused, so
does the capture. In no case does a capture write to what is around it. -/
theorem capture_transparent (engine : Engine) (target : String) (body : List Node)
    (l₁ l₂ : Location) (s : State) (hscope : s.scope.WellFormed)
    (htarget : s.scope.loopVariable? target = none) :
    let setting : Setting := ⟨engine, fun _ _ => false⟩
    let capture : Node := .tag true "capture" l₁ (.capture target body)
    let output : Node := .output (.variable target) l₂
    (∀ t, run setting body s = (.ok .normal, t) → ∃ o,
      (run setting body { s with captures := [], sink := {} }).2.sink.held = o.toUTF8 ∧
      write o { t with captures := s.captures, sink := s.sink } = (.ok (), t) ∧
      run setting [capture, output] s = (.ok .normal,
        { t with scope := t.scope.assign target (.str o), checks := t.checks + 2 })) ∧
    (∀ e t, run setting body s = (.error e, t) → (∀ fault, e.cause ≠ .output fault) → ∀ later,
      run setting (capture :: later) s =
        (.error e, { t with captures := s.captures, sink := s.sink, checks := t.checks + 1 })) ∧
    (run setting [capture] s).2.captures = s.captures ∧
      (run setting [capture] s).2.sink = s.sink := by
  intro setting capture output
  let includer := Machine.includerAt setting (engine.options.maxIncludeDepth - s.scope.depth)
  let own : Outlet := ⟨s.captures, s.sink⟩
  have hrun (nodes : List Node) (w : Outlet) :
      run setting nodes (s.into w 0) = runNodes setting includer nodes (s.into w 0) :=
    congrFun (congrFun (Machine.runWithin_eq setting _) nodes) (s.into w 0)
  have hown (nodes : List Node) : run setting nodes s = runNodes setting includer nodes s :=
    hrun nodes own
  obtain ⟨r, t₀, o, hprints⟩ :
      ∃ r t o, ∀ w n, Comes r t o w n (runNodes setting includer body (s.into w n)) := by
    rw [← Machine.runWithin_eq]
    exact runWithin_prints engine _ body s
  have hends {result : Except Error Signal} {t : State} (ht : run setting body s = (result, t)) :
      Comes r t₀ o own 0 (result, t) := by
    rw [← ht, hown]
    exact hprints own 0
  refine ⟨fun t ht => ?_, fun e t ht he later => ?_, ?_⟩
  · obtain ⟨rfl, w, hput, rfl⟩ := (hends ht).eq_of_not_refused (by rintro fault ⟨⟩)
    have hkept : s.scope.Kept (targetsOf body) t₀.scope := by
      have hbinds := runNodes_bindsOnly setting includer body s
      rwa [← hown, ht] at hbinds
    have hloops : t₀.scope.loopVariable? target = none := by
      rw [← htarget, Scope.loopVariable?, Scope.loopVariable?, hkept.loops_eq]
    refine ⟨o, ?_, ?_, ?_⟩
    · have halone := (hrun body ⟨[], {}⟩).trans ((hprints ⟨[], {}⟩ 0).accepted rfl)
      have hheld := congrArg (fun result => result.2.sink.held) halone
      exact hheld.trans (Sink.held_write o)
    · refine (write_into o t₀ own 0).trans ?_
      rw [hput]
      rfl
    · rw [hown]
      exact runNodes_capture_output (hkept.wellFormed hscope) hloops hprints l₁ l₂ hput 0
  · have hnot (fault : OutputFault) :
        (.error e : Except Error Signal) ≠ .error ⟨.output fault, none⟩ := by
      rintro ⟨⟩
      exact he fault rfl
    obtain ⟨rfl, w, -, rfl⟩ := (hends ht).eq_of_not_refused hnot
    rw [hown]
    exact runNodes_cons_of_error (runNode_capture_of_error hprints target l₁ own 1)
  · obtain ⟨u, hu⟩ := runNodes_capture_keeps hprints target l₁ own 0
    rw [hown]
    exact hu ▸ ⟨rfl, rfl⟩

/-- In a loop over `x`, with a sink that takes three bytes: what is printed is captured and put out.
In a strict engine the variable `y` fails the nodes, and so the capture, which writes nothing. -/
theorem capture_transparent_in_loop :
    let l : Location := ⟨none, 1, 1, 0⟩
    let scope : Scope := ({} : Scope).enterLoop.setLocal "x" (.int 7)
    let s : State := { scope, sink := { limit := some 3 } }
    let capture (body : List Node) : Node := .tag true "capture" l (.capture "v" body)
    let output : Node := .output (.variable "v") l
    let never : Interrupt := fun _ _ => false
    let body : List Node := [.text "a", .output (.variable "x") l]
    let t := (run ⟨{}, never⟩ body s).2
    let strict : Engine := { options := { strictVariables := true } }
    let failing : List Node := [.text "a", .output (.variable "y") l]
    let e : Error := ⟨.undefinedVariable "y", some l⟩
    let u := (run ⟨strict, never⟩ failing s).2
    run ⟨{}, never⟩ body s = (.ok .normal, t) ∧ t.sink.held = "a7".toUTF8 ∧
      (∃ o, run ⟨{}, never⟩ [capture body, output] s =
        (.ok .normal, { t with scope := t.scope.assign "v" (.str o), checks := t.checks + 2 })) ∧
      run ⟨strict, never⟩ failing s = (.error e, u) ∧ u.sink.held = "a".toUTF8 ∧
      run ⟨strict, never⟩ [capture failing, output] s =
        (.error e, { u with captures := [], sink := s.sink, checks := u.checks + 1 }) := by
  intro l scope s capture output never body t strict failing e u
  have hbody : run ⟨{}, never⟩ body s = (.ok .normal, t) := Prod.ext (by rfl) rfl
  have hfailing : run ⟨strict, never⟩ failing s = (.error e, u) := Prod.ext (by rfl) rfl
  obtain ⟨o, -, -, hrun⟩ := (capture_transparent {} "v" body l l s ⟨1, rfl⟩ rfl).1 t hbody
  have hcause (fault : OutputFault) : e.cause ≠ .output fault := by
    intro h
    cases h
  have hfails := (capture_transparent strict "v" failing l l s ⟨1, rfl⟩ rfl).2.1 e u hfailing hcause
    [output]
  exact ⟨hbody, by cbv, ⟨o, hrun⟩, hfailing, by cbv, hfails⟩

/-- A capture does not fail with the sink around it: a sink with room for one byte stops the text,
and the capture of the text runs to its end. -/
theorem capture_of_refused :
    let l : Location := ⟨none, 1, 1, 0⟩
    let setting : Setting := ⟨{}, fun _ _ => false⟩
    let s : State := { sink := { limit := some 1 } }
    s.scope.WellFormed ∧ s.scope.loopVariable? "v" = none ∧
      (run setting [.text "abc"] s).1 = .error ⟨.output .full, none⟩ ∧
      (run setting [.tag true "capture" l (.capture "v" [.text "abc"])] s).1 = .ok .normal := by
  intro l setting s
  exact ⟨⟨0, rfl⟩, rfl, by rfl, by rfl⟩

end Runs

end Render

end Stencil
