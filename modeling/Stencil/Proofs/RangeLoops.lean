import Mathlib
import Stencil.Proofs.Items
import Stencil.Proofs.Restoration
import Stencil.Proofs.Roundtrip
import Stencil.Proofs.Unread

/-!
# Loops over ranges

A loop over a range visits the integers that a loop over the list of the range visits. So a range
may as well be assigned to a variable first, as long as nothing else reads the variable and the
range is short enough to become a list.
-/
namespace Stencil

/-- A name that no open loop binds, and that neither the nodes nor what they include mentions. -/
structure FreshFor (engine : Engine) (s : State) (nodes : List Node) (name : String) : Prop where
  unbound : s.scope.loopVariable? name = none
  unmentioned : name ∉ mentionedIn nodes
  unread : .inclusion false ∈ partsOf nodes → Unread [name] (s.cache.served engine)

theorem FreshFor.avoids {engine : Engine} {s : State} {nodes : List Node} {name : String}
    (h : FreshFor engine s nodes name) :
    ∀ p ∈ partsOf nodes, p.Avoids [name] (s.cache.served engine) := by
  intro p hp
  cases p with
  | expr e =>
    intro other hother hmem
    obtain rfl : other = name := List.mem_singleton.mp hmem
    exact h.unmentioned (mentioned_subset_mentionedIn hp hother)
  | inclusion isolated =>
    cases isolated with
    | true => exact .inl rfl
    | false => exact .inr (h.unread hp)
  | target | place => trivial

/-- A range that can be a list, at bounds that are integers. -/
structure Expr.RangeAt (env : Environment) (first last : Expr) (a b : Int) : Prop where
  first : (first.eval env >>= Expr.toInt) = .ok a
  last : (last.eval env >>= Expr.toInt) = .ok b
  short : Expr.rangeLength a b ≤ Expr.maxRangeLength

theorem Expr.RangeAt.eval_eq {env : Environment} {first last : Expr} {a b : Int}
    (h : RangeAt env first last a b) :
    (Expr.range first last).eval env = .ok (.list (Expr.integers a b)) := by
  obtain ⟨v, hv, ha⟩ := bind_eq_ok.mp h.first
  obtain ⟨w, hw, hb⟩ := bind_eq_ok.mp h.last
  simp only [Expr.eval, hv, hw, ha, hb, bind, Except.bind, Expr.rangeList_eq,
    if_neg (Nat.not_lt.mpr h.short)]

theorem Scope.WellFormed.lookup_assign {s : Scope} (h : s.WellFormed) {name : String}
    (hname : s.loopVariable? name = none) (v : Value) :
    (s.assign name v).lookup name = some v := by
  have hkept : s.Kept [name] (s.assign name v) := .assign (List.mem_singleton_self name) v s
  have hloops : (s.assign name v).loopVariable? name = none := by
    rw [← hname, loopVariable?, loopVariable?, hkept.loops_eq]
  rw [(hkept.wellFormed h).lookup_eq, hloops, h.find?_own_assign]
  rfl

namespace Render

variable {engine : Engine} {i j : Interrupt} {served : String → Except Error Template}
  {hidden : List String}

/-- What the modifiers of a loop leave of a list. -/
def restricted (engine : Engine) (m : LoopModifiers) (values : List Value) :
    Render (List Value) := do
  let offset ← modifier? engine m.offset
  let limit ← modifier? engine m.limit
  return restrict offset limit m.reversed values

variable {s t : State} {m : LoopModifiers} {values found : List Value}

theorem length_restricted (h : (restricted engine m values s).1 = .ok found) :
    found.length ≤ values.length := by
  revert h
  refine bind_elim (P := fun r => r.1 = .ok found → _) (fun _ _ _ he => nomatch he)
    fun offset t _ => bind_elim (P := fun r => r.1 = .ok found → _) (fun _ _ _ he => nomatch he)
      fun limit u _ => ?_
  rintro ⟨⟩
  rw [length_restrict]
  cases limit with
  | none => exact Nat.sub_le _ _
  | some n => exact (Nat.min_le_left _ _).trans (Nat.sub_le _ _)

theorem loopValues_variable {name : String} (h : s.scope.lookup name = some (.list values)) :
    loopValues engine (.variable name) m s = restricted engine m values s := by
  have hvalue : (Expr.variable name).eval (engine.environment s.scope) = .ok (.list values) := by
    simp only [Expr.eval, Engine.environment, h]
  refine (modifier?_leaves engine _).bind_congr fun offset =>
    (modifier?_leaves engine _).bind_congr fun limit => ?_
  simp only [bind_apply, eval_apply, hvalue]
  rfl

theorem loopValues_range {first last : Expr} {a b : Int}
    (h : Expr.RangeAt (engine.environment s.scope) first last a b) :
    loopValues engine (.range first last) m s = restricted engine m (Expr.integers a b) s := by
  obtain ⟨v, hv, ha⟩ := bind_eq_ok.mp h.first
  obtain ⟨w, hw, hb⟩ := bind_eq_ok.mp h.last
  refine (modifier?_leaves engine _).bind_congr fun offset =>
    (modifier?_leaves engine _).bind_congr fun limit => ?_
  simp only [bind_apply, eval_apply, liftExcept_apply, hv, ha, hw, hb]

/-- A loop over the range ends like a loop over the variable that holds its list. -/
theorem runAction_range_loop (room : Nat)
    (hst : Abreast engine i j served hidden s t) {first last : Expr} {a b : Int}
    (h : Expr.RangeAt (engine.environment s.scope) first last a b) {name : String}
    (hname : t.scope.lookup name = some (.list (Expr.integers a b))) {item : String}
    {body otherwise : List Node}
    (havoids : ∀ p ∈ (Action.loop item (.range first last) m body otherwise).parts,
      p.Avoids hidden served) :
    EndAlike engine i j served hidden
      (runAction ⟨engine, i⟩ (Machine.includerAt ⟨engine, i⟩ room)
        (.loop item (.range first last) m body otherwise) s)
      (runAction ⟨engine, j⟩ (Machine.includerAt ⟨engine, j⟩ room)
        (.loop item (.variable name) m body otherwise) t) := by
  have hnodes : Congruence ⟨engine, i⟩ ⟨engine, j⟩ (Machine.includerAt ⟨engine, i⟩ room)
      (Machine.includerAt ⟨engine, j⟩ room) (Part.Avoids hidden served)
      (Unseen engine i j served hidden) := Unseen.congruence room
  simp only [Action.parts, Statement.parts, Statement.expressions, List.map_cons, List.map_append,
    List.forall_mem_append, List.forall_mem_cons, List.forall_mem_map, Option.mem_toList]
    at havoids
  obtain ⟨⟨-, hlimit, hoffset⟩, hbody, hotherwise⟩ := havoids
  have hrange := loopValues_range (m := m) h
  have hvalues : EndAlike engine i j served hidden (loopValues engine (.range first last) m s)
      (loopValues engine (.variable name) m t) := by
    have heval : EvalCongruence engine engine (Part.Avoids hidden served)
        (Unseen engine i j served hidden) := Unseen.evaluation
    rw [hrange, loopValues_variable hname]
    exact heval.seq (heval.modifier hoffset) (fun _ => heval.seq (heval.modifier hlimit)
      fun _ => heval.ret _) s t hst
  simp only [runAction]
  rcases loopItems_beside engine (.range first last) m s with
    ⟨e, hitems, hleft⟩ | ⟨items, values, hitems, hleft, hlists⟩
  · rcases loopItems_beside engine (.variable name) m t with
      ⟨d, hothers, hright⟩ | ⟨others, found, hothers, hright, -⟩
    · rw [hleft, hright] at hvalues
      obtain rfl : d = e := Except.error.inj hvalues.1
      rw [bind_of_error hitems, bind_of_error hothers]
      exact ⟨rfl, hst⟩
    · rw [hleft, hright] at hvalues
      cases hvalues.1
  · rcases loopItems_beside engine (.variable name) m t with
      ⟨d, hothers, hright⟩ | ⟨others, found, hothers, hright, hfound⟩
    · rw [hleft, hright] at hvalues
      cases hvalues.1
    · rw [hleft, hright] at hvalues
      obtain rfl : found = values := Except.ok.inj hvalues.1
      have hcounted : found.length ≤ LoopItems.maxCount := by
        have hlength : found.length ≤ (Expr.integers a b).length :=
          length_restricted (congrArg Prod.fst (hrange.symm.trans hleft))
        rw [Expr.length_integers] at hlength
        exact (hlength.trans h.short).trans (by decide)
      have hsame := iterate_of_lists item
        (runNodes ⟨engine, j⟩ (Machine.includerAt ⟨engine, j⟩ room) body) (hlists hcounted)
        (hfound hcounted)
      have hcount : others.count = items.count :=
        (hfound hcounted).count.trans (hlists hcounted).count.symm
      rw [bind_of_ok hitems, bind_of_ok hothers, hsame, hcount]
      split
      · exact hnodes.ofNodes otherwise hotherwise s t hst
      · exact hnodes.loop item items items.count (hnodes.ofNodes body hbody) s t hst

/-- A loop over the range, and what comes after it, ends like the loop over the variable. -/
theorem runNodes_range_loop (room : Nat)
    (hst : Abreast engine i j served hidden s t) {first last : Expr} {a b : Int}
    (h : Expr.RangeAt (engine.environment s.scope) first last a b) {name : String}
    (hname : t.scope.lookup name = some (.list (Expr.integers a b))) {item : String}
    {body otherwise rest : List Node} {isBlock : Bool} {tag : String}
    {l : Location}
    (havoids : ∀ p ∈ partsOf
      (.tag isBlock tag l (.loop item (.range first last) m body otherwise) :: rest),
        p.Avoids hidden served) :
    EndAlike engine i j served hidden
      (runNodes ⟨engine, i⟩ (Machine.includerAt ⟨engine, i⟩ room)
        (.tag isBlock tag l (.loop item (.range first last) m body otherwise) :: rest) s)
      (runNodes ⟨engine, j⟩ (Machine.includerAt ⟨engine, j⟩ room)
        (.tag isBlock tag l (.loop item (.variable name) m body otherwise) :: rest) t) := by
  obtain ⟨hnode, hrest⟩ := List.forall_mem_append.mp havoids
  obtain ⟨-, haction⟩ := List.forall_mem_cons.mp hnode
  simp only [runNodes, runNode]
  refine (Unseen.check s t hst).seq fun _ u v hu hv huv => ?_
  obtain rfl : u = { s with checks := s.checks + 1 } := (congrArg Prod.snd hu).symm
  obtain rfl : v = { t with checks := t.checks + 1 } := (congrArg Prod.snd hv).symm
  have hloop := runAction_range_loop room huv h hname haction
  refine (hloop.locatedAt l).seq fun signal u v _ _ hafter => ?_
  cases signal with
  | normal => exact (Unseen.congruence room).ofNodes rest hrest u v hafter
  | leave | next => exact Unseen.ret _ u v hafter

/-- What is computed for a range are the integers that are left of it. -/
theorem ofRange_exact {first last : Int64} {offset limit : Option Nat} {reversed : Bool}
    (h : (restrict offset limit reversed (Int.range first.toInt (last.toInt + 1))).length ≤
      LoopItems.maxCount) :
    let ints := restrict offset limit reversed (Int.range first.toInt (last.toInt + 1))
    let items := LoopItems.ofRange first.toInt last.toInt offset limit reversed
    items.count = ints.length ∧
      ∀ k (hk : k < ints.length), ∃ n : Int64, items.item k = .int n ∧ n.toInt = ints[k] := by
  intro ints items
  have hlists := LoopItems.ofRange_lists h
  rw [Expr.integers, restrict_map] at hlists
  refine ⟨hlists.count.trans (List.length_map _), fun k hk => ⟨.ofInt ints[k], ?_, ?_⟩⟩
  · rw [hlists.item k (by rwa [List.length_map]), List.getElem_map]
  · obtain ⟨position, hposition, hget, -⟩ := getElem_restrict _ hk
    have hint : ints[k] ∈ Int.range first.toInt (last.toInt + 1) := by
      rw [hget]
      exact List.getElem_mem hposition
    obtain ⟨hfirst, hlast⟩ := Int.mem_range_iff.mp hint
    have hhigh := Int64.toInt_lt last
    exact Int64.toInt_ofInt_of_le ((Int64.le_toInt first).trans hfirst) (by omega)

/-- A loop over a range visits what the list of the range has after an offset, a limit and the
direction, as long as the integers that are left can be counted. So it ends as if the range had been
assigned to a fresh variable, from which the states differ in this variable only. The assignment
makes for one question more whether to go on; the other ones are answered alike. What a loop says
does not depend on the order of its modifiers. -/
theorem range_walked_as_list :
    (∀ (first last : Int64) (offset limit : Option Nat) (reversed : Bool),
      let ints := restrict offset limit reversed (Int.range first.toInt (last.toInt + 1))
      let items := LoopItems.ofRange first.toInt last.toInt offset limit reversed
      ints.length ≤ LoopItems.maxCount →
        items.count = ints.length ∧
          ∀ k (hk : k < ints.length), ∃ n : Int64, items.item k = .int n ∧ n.toInt = ints[k]) ∧
    (∀ (engine : Engine) (i j : Interrupt) (room : Nat) (s : State) (first last : Expr) (a b : Int)
      (item fresh : String) (m : LoopModifiers) (body otherwise rest : List Node)
      (before l : Location),
      let loop (source : Expr) : Node := .tag true "for" l (.loop item source m body otherwise)
      let direct := runWithin ⟨engine, i⟩ room (loop (.range first last) :: rest) s
      let assigned := runWithin ⟨engine, j⟩ room
        (.tag false "assign" before (.assign fresh (.range first last)) ::
          loop (.variable fresh) :: rest) s
      s.scope.WellFormed → Expr.RangeAt (engine.environment s.scope) first last a b →
        FreshFor engine s (loop (.range first last) :: rest) fresh →
          j s.checks s.sink.held.size = false →
            (∀ n held, j (s.checks + 1 + n) held = i (s.checks + n) held) →
              assigned.1 = direct.1 ∧ direct.2.AlikeBut [fresh] assigned.2) ∧
    ∀ (item : String) (source : Expr) (m : LoopModifiers) (written : List Modifier),
      (Statement.loop item source m).Printable → written.Perm m.written →
        Statement.parse .loop (TokenKind.printAll (Statement.loopKinds item source written)) =
          .ok (.loop item source m) := by
  refine ⟨fun _ _ _ _ _ => ofRange_exact, ?_,
    fun _ _ _ _ hprintable hwritten => Statement.parse_loopKinds hprintable hwritten⟩
  intro engine i j room s first last a b item fresh m body otherwise rest before l loop direct
    assigned hs hrange hfresh hgo hasked
  let list : Value := .list (Expr.integers a b)
  let t : State := { s with scope := s.scope.assign fresh list, checks := s.checks + 1 }
  have hkept : s.scope.Kept [fresh] (s.scope.assign fresh list) :=
    .assign (List.mem_singleton_self fresh) list s.scope
  have hst : Abreast engine i j (s.cache.served engine) [fresh] s t :=
    ⟨⟨_, _, .of_kept hkept, rfl⟩, hasked, rfl⟩
  have hassigned : assigned = runNodes ⟨engine, j⟩ (Machine.includerAt ⟨engine, j⟩ room)
      (loop (.variable fresh) :: rest) t := by
    have hcheck : check j s = (.ok (), { s with checks := s.checks + 1 }) := by
      simp only [check, hgo, Bool.false_eq_true, if_false]
    have hassign : runAction ⟨engine, j⟩ (Machine.includerAt ⟨engine, j⟩ room)
        (.assign fresh (.range first last)) { s with checks := s.checks + 1 } = (.ok .normal, t) :=
      runAction_assign _ _ hrange.eval_eq
    simp only [assigned, Machine.runWithin_eq, runNodes, runNode]
    rw [bind_of_ok hcheck, bind_of_ok (locatedAt_of_ok before hassign)]
  have hloop := runNodes_range_loop room hst hrange
    (hs.lookup_assign hfresh.unbound list) hfresh.avoids
  rw [hassigned]
  simp only [direct, Machine.runWithin_eq]
  exact ⟨hloop.1, hloop.2.alike⟩

/-- The two last integers of all, backwards, and a short range with its modifiers out of order. -/
theorem range_walked_as_list_backwards :
    let l : Location := ⟨none, 1, 1, 0⟩
    let range : Expr := .range (.literal (.int 1)) (.literal (.int 3))
    let m : LoopModifiers := ⟨some (.literal (.int 2)), some (.literal (.int 1)), true⟩
    let loop (source : Expr) : Node := .tag true "for" l
      (.loop "x" source m [.output (.variable "x") l] [])
    let s : State := {}
    let never : Interrupt := fun _ _ => false
    let direct := runWithin ⟨{}, never⟩ 0 [loop range] s
    let assigned := runWithin ⟨{}, never⟩ 0
      [.tag false "assign" l (.assign "r" range), loop (.variable "r")] s
    (LoopItems.ofRange Int64.minValue.toInt Int64.maxValue.toInt none (some 2) true).count =
        (restrict none (some 2) true
          (Int.range Int64.minValue.toInt (Int64.maxValue.toInt + 1))).length ∧
      direct.2.sink.held = "32".toUTF8 ∧ assigned.1 = direct.1 ∧
      direct.2.AlikeBut ["r"] assigned.2 ∧
      TokenKind.printAll (Statement.loopKinds "x" range
          [.offset (.literal (.int 1)), .reversed, .limit (.literal (.int 2))]) =
        "x in ( 1 .. 3 ) offset : 1 reversed limit : 2" ∧
      Statement.parse .loop "x in ( 1 .. 3 ) offset : 1 reversed limit : 2" =
        .ok (.loop "x" range m) := by
  intro l range m loop s never direct assigned
  have hcounted : (restrict none (some 2) true
      (Int.range Int64.minValue.toInt (Int64.maxValue.toInt + 1))).length ≤ LoopItems.maxCount := by
    rw [length_restrict, Option.elim]
    exact (Nat.min_le_right _ _).trans (by decide)
  have hheld : direct.2.sink.held = "32".toUTF8 := by
    simp only [direct, loop, m, range, s, l, never]
    cbv
  have hfresh : FreshFor {} s [loop range] "r" := by
    refine ⟨rfl, ?_, fun hinclusion => ?_⟩
    · simp only [loop, m, range, l]
      decide
    · simp [loop, partsOf, Node.parts, Action.parts, Statement.parts] at hinclusion
  have hprintable : (Statement.loop "x" range m).Printable := by
    have hone : (Expr.literal (.int 1)).Printable := (by decide : (0 : Int64) ≤ 1)
    have htwo : (Expr.literal (.int 2)).Printable := (by decide : (0 : Int64) ≤ 2)
    have hthree : (Expr.literal (.int 3)).Printable := (by decide : (0 : Int64) ≤ 3)
    refine ⟨isIdentifier_of_letters (by decide) (by decide), ⟨hone, hthree⟩, ?_, ?_⟩
    · rintro _ ⟨⟩
      exact htwo
    · rintro _ ⟨⟩
      exact hone
  have hwritten : List.Perm [.offset (.literal (.int 1)), .reversed, .limit (.literal (.int 2))]
      m.written := (List.Perm.swap _ _ _).trans (.cons _ (.swap _ _ _))
  have hprint : TokenKind.printAll (Statement.loopKinds "x" range
      [.offset (.literal (.int 1)), .reversed, .limit (.literal (.int 2))]) =
        "x in ( 1 .. 3 ) offset : 1 reversed limit : 2" := by rfl
  obtain ⟨hitems, hruns, hreads⟩ := range_walked_as_list
  have hrun := hruns {} never never 0 s (.literal (.int 1)) (.literal (.int 3)) 1 3 "x" "r" m
    [.output (.variable "x") l] [] [] l l ⟨0, rfl⟩ ⟨rfl, rfl, by decide⟩ hfresh rfl fun _ _ => rfl
  exact ⟨(hitems Int64.minValue Int64.maxValue none (some 2) true hcounted).1, hheld, hrun.1,
    hrun.2, hprint, hprint ▸ hreads "x" range m _ hprintable hwritten⟩

end Render

end Stencil
