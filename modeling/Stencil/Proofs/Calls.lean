import Mathlib
import Stencil.Proofs.Operands

/-!
# Filter calls

A printed pipeline is read again up to the places of its filter calls. Behind a name a colon tells a
named argument from a positional one, so that no positional argument may hold a colon.
-/
namespace Stencil.Parser

open TokenKind (commas)

variable {inner : Parser Expr} {ts rest : List Token} {kinds later : List TokenKind} {e : Expr}
  {P : TokenKind → Prop} {before : Arguments} {args : List Expr} {key : String}

/-- A printable expression that is read in brackets and the like. -/
structure ReadBy (inner : Parser Expr) (e : Expr) : Prop where
  printable : e.Printable
  reads : Reads inner e.kinds e (Stops 0)

theorem commas_map {ι : Type} (print : ι → List TokenKind) (item : ι) (items : List ι) :
    commas ((item :: items).map print)
      = print item ++ items.flatMap fun item => .symbol .comma :: print item := by
  rw [List.map_cons, commas, List.flatMap_map]

section Arguments

/-- What may come after an argument. -/
def EndsArgument (kind : TokenKind) : Prop := Stops 0 kind ∧ kind ≠ .symbol .colon

theorem argument_named (h : Reads inner kinds e P) :
    Reads (argument inner before) (.ident key :: .symbol .colon :: kinds)
      (before.1, before.2 ++ [(key, e)]) P := by
  intro ts rest hts hrest
  obtain ⟨⟨_, _⟩, ts, rfl, rfl, hcolon⟩ := List.map_eq_cons_iff.mp hts
  obtain ⟨⟨_, _⟩, ts, rfl, rfl, hkinds⟩ := List.map_eq_cons_iff.mp hcolon
  have hread : Reads (inner >>= fun e => pure (before.1, before.2 ++ [(key, e)])) kinds
      (before.1, before.2 ++ [(key, e)]) P := h.map
  exact hread ts rest hkinds hrest

theorem argument_of_not_named (h : Next (· ≠ .symbol .colon) ts.tail) :
    argument inner (args, []) ts
      = (inner >>= fun e => pure ((args ++ [e], []) : Arguments)) ts := by
  have hget : (get : Parser (List Token)) ts = .ok (ts, ts) := rfl
  rw [argument, bind_of_ok hget]
  split
  case h_1 => exact absurd rfl (h _ rfl)
  case h_2 => rfl

theorem argument_positional (h : ReadBy inner e) :
    Reads (argument inner (args, [])) e.kinds (args ++ [e], []) EndsArgument := by
  have hread : Reads (inner >>= fun e => pure ((args ++ [e], []) : Arguments)) e.kinds
      (args ++ [e], []) EndsArgument := h.reads.map.weaken fun _ hkind => hkind.1
  obtain ⟨kind, later, hkinds, -⟩ := Expr.starts_kinds h.printable
  have hlead : Leads (· ≠ .symbol .colon) later EndsArgument := by
    have hinExpr := Expr.inExpr_of_mem_kinds h.printable
    rw [hkinds] at hinExpr
    cases later with
    | nil => exact fun _ hkind => hkind.2
    | cons k later => exact (hinExpr k (by simp)).not_colon
  intro ts rest hts hrest
  -- a colon second would make the first token the name of an argument
  rw [argument_of_not_named]
  · exact hread ts rest hts hrest
  · rw [hkinds] at hts
    obtain ⟨t, ts, rfl, -, hlater⟩ := List.map_eq_cons_iff.mp hts
    exact hlead.next hlater hrest

def argumentStep? (inner : Parser Expr) (before : Arguments) : Parser (Option Arguments) := do
  if ← acceptSymbol .comma then return some (← argument inner before) else return none

theorem argumentStep?_reads {after : Arguments} (h : Reads (argument inner before) kinds after P) :
    Reads (argumentStep? inner before) (.symbol .comma :: kinds) (some after) P :=
  Reads.accepting rfl h.map

theorem argumentStep?_stops : Reads (argumentStep? inner before) [] none
    fun kind => kind.isSymbol .comma = false :=
  Reads.declining (fun _ h => h) (Reads.ret none _)

/-- What may come after the arguments of a call. -/
def EndsCall (kind : TokenKind) : Prop := EndsArgument kind ∧ kind.isSymbol .comma = false

variable {named : List (String × Expr)}

theorem named_repeats {taken : List (String × Expr)}
    (hnamed : ∀ entry ∈ named, ReadBy inner entry.2) :
    Repeats (argumentStep? inner) EndsCall (args, taken)
      (named.flatMap fun entry => .symbol .comma :: parameterKinds entry)
      (args, taken ++ named) := by
  have hdone : Repeats (argumentStep? inner) EndsCall (args, taken ++ named) []
      (args, taken ++ named) := .done (argumentStep?_stops.weaken fun _ hkind => hkind.2)
  have hrepeats := Repeats.items (fun taken => (args, taken)) (fun _ entry hentry =>
    argumentStep?_reads (argument_named (hnamed entry hentry).reads)) (stops_of_none rfl)
      (fun _ h => h.1.1) hdone
  rwa [List.append_nil] at hrepeats

theorem endsArgument_comma : EndsArgument (.symbol .comma) :=
  ⟨stops_of_none rfl, fun h => by cases h⟩

theorem positional_repeats {taken : List Expr} (hargs : ∀ e ∈ args, ReadBy inner e)
    (hnamed : ∀ entry ∈ named, ReadBy inner entry.2) :
    Repeats (argumentStep? inner) EndsCall (taken, [])
      (args.flatMap (fun e => .symbol .comma :: e.kinds) ++
        named.flatMap fun entry => .symbol .comma :: parameterKinds entry)
      (taken ++ args, named) := by
  refine Repeats.items (fun taken => (taken, [])) (fun taken e he =>
    argumentStep?_reads (argument_positional (hargs e he))) endsArgument_comma ?_ ?_
  · exact leads_items endsArgument_comma fun _ h => h.1
  · exact named_repeats hnamed

theorem commas_argumentKinds_cons (name : String) (e : Expr) (args : List Expr)
    (named : List (String × Expr)) (span : Span) :
    commas (FilterCall.argumentKinds (.mk name (e :: args) named span))
      = e.kinds ++ (args.flatMap (fun e => .symbol .comma :: e.kinds) ++
        named.flatMap fun entry => .symbol .comma :: parameterKinds entry) := by
  simp [FilterCall.argumentKinds, FilterCall.args, FilterCall.named, commas, List.flatMap_map]

/-- A call all of whose arguments are read. -/
structure CallReadBy (inner : Parser Expr) (call : FilterCall) : Prop where
  args : ∀ e ∈ call.args, ReadBy inner e
  named : ∀ entry ∈ call.named, ReadBy inner entry.2

theorem arguments_reads {call : FilterCall} (h : CallReadBy inner call) :
    Reads (arguments inner)
      (if call.argumentKinds = [] then [] else .symbol .colon :: commas call.argumentKinds)
      (call.args, call.named) EndsCall := by
  obtain ⟨hargs, hnamed⟩ := h
  obtain ⟨name, args, named, span⟩ := call
  simp only [FilterCall.args, FilterCall.named] at hargs hnamed ⊢
  match args, named with
  | [], [] =>
    have hcolon : ∀ kind, EndsCall kind → kind.isSymbol .colon = false :=
      fun kind h => isSymbol_eq_false h.1.2
    exact Reads.declining hcolon (Reads.ret _ _)
  | [], entry :: named =>
    obtain ⟨hentry, hnamed⟩ := List.forall_mem_cons.mp hnamed
    have hne : FilterCall.argumentKinds (.mk name [] (entry :: named) span) ≠ [] :=
      List.cons_ne_nil _ _
    have hkinds : commas (FilterCall.argumentKinds (.mk name [] (entry :: named) span))
      = parameterKinds entry ++ named.flatMap fun entry => .symbol .comma :: parameterKinds entry :=
        commas_map parameterKinds entry named
    have hrepeats : Repeats (argumentStep? inner) EndsCall ([], [entry]) _ ([], entry :: named) :=
      named_repeats hnamed
    rw [if_neg hne, hkinds]
    refine Reads.accepting rfl ((argument_named hentry.reads).bind ?_ hrepeats.reads)
    exact leads_items (stops_of_none rfl) fun _ h => h.1.1
  | e :: args, named =>
    obtain ⟨he, hargs⟩ := List.forall_mem_cons.mp hargs
    have hne : FilterCall.argumentKinds (.mk name (e :: args) named span) ≠ [] :=
      List.cons_ne_nil _ _
    have hnext : Leads EndsArgument (args.flatMap (fun e => .symbol .comma :: e.kinds) ++
        named.flatMap fun entry => .symbol .comma :: parameterKinds entry) EndsCall :=
      leads_flatMap endsArgument_comma (leads_items endsArgument_comma fun _ h => h.1)
    rw [if_neg hne, commas_argumentKinds_cons]
    exact Reads.accepting rfl
      ((argument_positional he).bind hnext (positional_repeats hargs hnamed).reads)

end Arguments

section Pipeline

theorem filterCall_readsTo {call : FilterCall} (h : CallReadBy inner call) :
    ReadsTo FilterCall.unplaced (filterCall inner)
      (.ident call.name ::
        if call.argumentKinds = [] then [] else .symbol .colon :: commas call.argumentKinds)
      call.unplaced EndsCall := by
  intro ts rest hts hrest
  obtain ⟨t, ts, rfl, ht, hargs⟩ := List.map_eq_cons_iff.mp hts
  have hname : name "filter name" (t :: ts ++ rest) = .ok (call.name, ts ++ rest) :=
    name_reads (P := fun _ => True) "filter name" call.name [t] (ts ++ rest) (congrArg (· :: []) ht)
      fun _ _ => trivial
  have hget : (get : Parser (List Token)) (t :: ts ++ rest)
    = .ok (t :: ts ++ rest, t :: ts ++ rest) := rfl
  refine ⟨.mk call.name call.args call.named (consumedSpan (t :: ts ++ rest) rest), ?_, rfl⟩
  rw [filterCall, bind_of_ok hget, bind_of_ok hname,
    bind_of_ok (arguments_reads h ts rest hargs hrest)]
  rfl

def callStep? (inner : Parser Expr) (calls : List FilterCall) :
    Parser (Option (List FilterCall)) := do
  if ← acceptSymbol .pipe then return some (calls ++ [← filterCall inner]) else return none

theorem callStep?_readsTo {call : FilterCall} (h : CallReadBy inner call)
    (calls : List FilterCall) :
    ReadsTo (Option.map (List.map FilterCall.unplaced)) (callStep? inner calls) call.kinds
      (some ((calls ++ [call]).map FilterCall.unplaced)) EndsCall := by
  have hpipe : Reads (acceptSymbol .pipe) [.symbol .pipe] true fun _ => True := accept_true rfl
  refine hpipe.bindTo trivial ((filterCall_readsTo h).map fun call' hcall => ?_)
  rw [Option.map_some, List.map_append, List.map_append, List.map_singleton, List.map_singleton,
    hcall]

theorem endsCall_pipe : EndsCall (.symbol .pipe) :=
  ⟨⟨stops_of_none rfl, fun h => by cases h⟩, rfl⟩

theorem next_calls {calls : List FilterCall}
    (hts : ts.map Token.kind = calls.flatMap FilterCall.kinds) : Next EndsCall ts := by
  cases calls with
  | nil =>
    rw [List.map_eq_nil_iff.mp hts]
    exact fun _ ht => nomatch ht
  | cons call calls =>
    obtain ⟨t, ts, rfl, ht, -⟩ := List.map_eq_cons_iff.mp hts
    intro t' ht'
    cases ht'
    rw [ht]
    exact endsCall_pipe

/-- Calls are taken up to the end of the text, after those that were taken before. -/
theorem extendAtMost_calls {calls : List FilterCall} (h : ∀ call ∈ calls, CallReadBy inner call)
    {taken : List FilterCall} {n : Nat} (hts : ts.map Token.kind = calls.flatMap FilterCall.kinds)
    (hn : ts.length ≤ n) : ∃ found, extendAtMost (callStep? inner) n taken ts = .ok (found, []) ∧
      found.map FilterCall.unplaced = (taken ++ calls).map FilterCall.unplaced := by
  induction calls generalizing taken n ts with
  | nil =>
    refine ⟨taken, ?_, by rw [List.append_nil]⟩
    rw [List.map_eq_nil_iff.mp hts]
    cases n <;> rfl
  | cons call calls ih =>
    obtain ⟨hcall, hcalls⟩ := List.forall_mem_cons.mp h
    obtain ⟨ts, ts', rfl, hkinds, hlater⟩ := List.map_eq_append_iff.mp hts
    have hnext : Next EndsCall ts' := next_calls hlater
    obtain ⟨step, hstep, hfound⟩ := callStep?_readsTo hcall taken ts ts' hkinds hnext
    obtain ⟨next, rfl, hnext⟩ := Option.map_eq_some_iff.mp hfound
    have hpos : 0 < ts.length := by
      rw [← List.length_map Token.kind, hkinds]
      exact Nat.succ_pos _
    obtain ⟨m, rfl⟩ : ∃ m, n = m + 1 := ⟨n - 1, by rw [List.length_append] at hn; omega⟩
    have hm : ts'.length ≤ m := by
      rw [List.length_append] at hn
      omega
    obtain ⟨found, hfound, hmap⟩ : ∃ found, extendAtMost (callStep? inner) m next ts' =
        .ok (found, []) ∧ found.map FilterCall.unplaced = (next ++ calls).map FilterCall.unplaced :=
      ih hcalls hlater hm
    refine ⟨found, ?_, ?_⟩
    · rw [extendAtMost, bind_of_ok hstep]
      exact hfound
    · rw [hmap, List.map_append, hnext, ← List.map_append, List.append_assoc, List.singleton_append]

/-- A value passed through filters, of which there may be none. -/
def piped (base : Expr) (calls : List FilterCall) : Expr :=
  if calls.isEmpty then base else .filtered base calls

theorem piped_unplaced {base : Expr} {calls found : List FilterCall}
    (h : found.map FilterCall.unplaced = calls.map FilterCall.unplaced) :
    (piped base found).unplaced = (piped base calls).unplaced := by
  cases calls with
  | nil => rw [List.map_eq_nil_iff.mp h]
  | cons call calls =>
    obtain ⟨call', found, rfl, -, -⟩ := List.map_eq_cons_iff.mp h
    exact congrArg (Expr.filtered base) h

theorem pipeline_of_calls {base : Expr} {calls : List FilterCall} (hbase : ReadBy inner base)
    (hcalls : ∀ call ∈ calls, CallReadBy inner call)
    (hts : ts.map Token.kind = base.kinds ++ calls.flatMap FilterCall.kinds) :
    ∃ found, pipeline inner ts = .ok (piped base found, []) ∧
      found.map FilterCall.unplaced = calls.map FilterCall.unplaced := by
  obtain ⟨ts, ts', rfl, hkinds, hlater⟩ := List.map_eq_append_iff.mp hts
  have hnext : Next (Stops 0) ts' := fun t ht => (next_calls hlater t ht).1.1
  obtain ⟨found, hfound, hmap⟩ : ∃ found, extendAtMost (callStep? inner) ts'.length [] ts' =
      .ok (found, []) ∧ found.map FilterCall.unplaced = ([] ++ calls).map FilterCall.unplaced :=
    extendAtMost_calls hcalls hlater (Nat.le_refl ts'.length)
  refine ⟨found, ?_, hmap⟩
  rw [pipeline, bind_of_ok (hbase.reads ts ts' hkinds hnext)]
  have hextend : extend (callStep? inner) [] ts' = .ok (found, []) := hfound
  exact bind_of_ok hextend _

end Pipeline

section Nesting

variable {n : Nat} {call : FilterCall}

theorem length_le_flatMap {ι : Type} (print : ι → List TokenKind) {items : List ι} {item : ι}
    (h : item ∈ items) : (print item).length ≤ (items.flatMap print).length :=
  (List.sublist_flatten_of_mem (List.mem_map_of_mem h)).length_le

theorem length_le_commas {items : List (List TokenKind)} (h : kinds ∈ items) :
    kinds.length ≤ (commas items).length := by
  cases items with
  | nil => cases h
  | cons first items =>
    rw [commas, List.length_append]
    rcases List.mem_cons.mp h with rfl | h
    · exact Nat.le_add_right _ _
    · have hle : (.symbol .comma :: kinds).length ≤ (items.flatMap (.symbol .comma :: ·)).length :=
        length_le_flatMap _ h
      rw [List.length_cons] at hle
      omega

theorem readBy_nested (h : e.Printable) (hn : e.kinds.length ≤ n) : ReadBy (nested n) e :=
  ⟨h, (Expr.readable h).nested (Expr.starts_kinds h) hn⟩

theorem length_le_call (h : kinds ∈ call.argumentKinds) : kinds.length ≤ call.kinds.length := by
  have hcommas := length_le_commas h
  rw [FilterCall.kinds, if_neg (List.ne_nil_of_mem h)]
  simp only [List.length_cons]
  omega

theorem callReadBy_nested (h : call.Printable) (hn : call.kinds.length ≤ n) :
    CallReadBy (nested n) call where
  args e he := by
    have hmem : e.kinds ∈ call.argumentKinds :=
      List.mem_append_left _ (List.mem_map_of_mem he)
    exact readBy_nested (h.args e he) ((length_le_call hmem).trans hn)
  named entry hentry := by
    have hmem : parameterKinds entry ∈ call.argumentKinds :=
      List.mem_append_right _ (List.mem_map_of_mem hentry)
    have hle : entry.2.kinds.length + 2 ≤ call.kinds.length := length_le_call hmem
    exact readBy_nested (h.named entry hentry).2 (by omega)

/-- The parts of a printable pipeline. -/
theorem exists_piped (h : e.PrintablePipeline) : ∃ base calls, e = piped base calls ∧
    base.Printable ∧ (∀ call ∈ calls, call.Printable) ∧
      e.pipelineKinds = base.kinds ++ calls.flatMap FilterCall.kinds := by
  cases e with
  | filtered base calls =>
    obtain ⟨hbase, hne, hcalls⟩ := h
    obtain ⟨call, calls, rfl⟩ := List.exists_cons_of_ne_nil hne
    exact ⟨base, call :: calls, rfl, hbase, hcalls, rfl⟩
  | _ => exact ⟨_, [], rfl, h, List.forall_mem_nil _, (List.append_nil _).symm⟩

theorem pipeline_nested (h : e.PrintablePipeline) (hn : e.pipelineKinds.length ≤ n) :
    ReadsTo Expr.unplaced (pipeline (nested n)) e.pipelineKinds e.unplaced AtEnd := by
  obtain ⟨base, calls, rfl, hbase, hcalls, hkinds⟩ := exists_piped h
  rw [hkinds] at hn ⊢
  rw [List.length_append] at hn
  intro ts rest hts hrest
  have hbaseRead : ReadBy (nested n) base := readBy_nested hbase (by omega)
  have hcallsRead : ∀ call ∈ calls, CallReadBy (nested n) call := fun call hcall =>
    callReadBy_nested (hcalls call hcall) ((length_le_flatMap _ hcall).trans (by omega))
  obtain ⟨found, hfound, hmap⟩ := pipeline_of_calls hbaseRead hcallsRead hts
  rw [eq_nil_of_next hrest, List.append_nil]
  exact ⟨piped base found, hfound, piped_unplaced hmap⟩

end Nesting

end Stencil.Parser
