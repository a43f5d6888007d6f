import Mathlib
import Stencil.Proofs.Quoting
import Stencil.Proofs.Steps

/-!
# Raw blocks

The body of a raw block goes up to the first tag that ends it, whatever markup and quotes it opens
without closing them, and it is written as it stands.
-/
namespace Stencil

namespace Text

theorem trim_append (cs : List Char) :
    ∃ left right, cs = left ++ trim cs ++ right ∧ (∀ c ∈ left, isBlank c) ∧
      ∀ c ∈ right, isBlank c := by
  refine ⟨cs.takeWhile isBlank, ((trimStart cs).reverse.takeWhile isBlank).reverse, ?_,
    fun c hc => List.mem_takeWhile_imp hc,
    fun c hc => List.mem_takeWhile_imp (List.mem_reverse.mp hc)⟩
  have hend : trim cs ++ ((trimStart cs).reverse.takeWhile isBlank).reverse = trimStart cs := by
    rw [trim, trimEnd, ← List.reverse_append, List.takeWhile_append_dropWhile, List.reverse_reverse]
  rw [List.append_assoc, hend]
  exact List.takeWhile_append_dropWhile.symm

theorem mem_trim {c : Char} {cs : List Char} (hc : c ∈ cs) (hblank : isBlank c = false) :
    c ∈ trim cs := by
  obtain ⟨left, right, hcs, hleft, hright⟩ := trim_append cs
  rw [hcs] at hc
  rcases List.mem_append.mp hc with hc | hc
  · rcases List.mem_append.mp hc with hc | hc
    · rw [hleft c hc] at hblank
      cases hblank
    · exact hc
  · rw [hright c hc] at hblank
    cases hblank

theorem dropWhile_isBlank {cs : List Char} (h : ∀ c ∈ cs, isBlank c = false) (ds : List Char)
    (hne : cs ≠ []) : (cs ++ ds).dropWhile isBlank = cs ++ ds := by
  obtain ⟨c, cs, rfl⟩ := List.exists_cons_of_ne_nil hne
  rw [List.cons_append, List.dropWhile_cons_of_neg (by rw [h c List.mem_cons_self]; decide)]

theorem trim_spaced {cs : List Char} (h : ∀ c ∈ cs, isBlank c = false) (hne : cs ≠ []) :
    trim (' ' :: cs ++ [' ']) = cs := by
  have hspace : isBlank ' ' := by decide
  have hstart : trimStart (' ' :: cs ++ [' ']) = cs ++ [' '] := by
    rw [trimStart, List.cons_append, List.dropWhile_cons_of_pos hspace, dropWhile_isBlank h _ hne]
  have hreverse : ∀ c ∈ cs.reverse, isBlank c = false := fun c hc => h c (List.mem_reverse.mp hc)
  rw [trim, hstart, trimEnd, List.reverse_append, List.reverse_singleton, List.singleton_append,
    List.dropWhile_cons_of_pos hspace, ← List.append_nil cs.reverse,
    dropWhile_isBlank hreverse _ (by simpa using hne), List.append_nil, List.reverse_reverse]

end Text

namespace Markup

open Token (isBare)

/-- A tag that ends a raw block, as it may be written. -/
def IsEndTag (endTag : String) (cs : List Char) : Prop :=
  ∃ (before after : Bool) (left right : List Char),
    (∀ c ∈ left, Text.isBlank c) ∧ (∀ c ∈ right, Text.isBlank c) ∧
    cs = Delimiter.tag.opening.toList ++ dash before ++ (left ++ endTag.toList ++ right) ++
      dash after ++ Delimiter.tag.closing.toList

theorem isEndTag_text {m : Markup} {endTag : String} (htag : m.delimiter = .tag)
    (hinner : String.ofList (Text.trim m.inner) = endTag) : IsEndTag endTag m.text := by
  obtain ⟨left, right, hcs, hleft, hright⟩ := Text.trim_append m.inner
  refine ⟨m.trimBefore, m.trimAfter, left, right, hleft, hright, ?_⟩
  rw [← hinner, String.toList_ofList, ← hcs, text, htag]

/-- The plain tag of a name. -/
def tagText (name : String) : List Char :=
  Delimiter.tag.opening.toList ++ ' ' :: name.toList ++ ' ' :: Delimiter.tag.closing.toList

variable {name : String} {quotes : Bool} {pos : Nat} {tail after : List Char}

theorem bare_tagText (hname : IsTagName name) :
    ∀ x ∈ Delimiter.tag.opening.toList ++ ' ' :: name.toList, isBare x := by
  have hopening : ∀ x ∈ ['{', '%'], isBare x := by simp [isBare]
  intro x hx
  rcases List.mem_append.mp hx with hx | hx
  · exact hopening x hx
  · rcases List.mem_cons.mp hx with rfl | hx
    · rfl
    · exact isBare_of_isTagNamePart (hname.2 x hx)

theorem close?_tagText (hname : IsTagName name) (after : List Char) :
    close? .tag quotes none (tagText name ++ after)
      = some (Delimiter.tag.opening.toList ++ ' ' :: name.toList ++ [' '], after) := by
  rw [tagText, List.append_assoc, close?_bare (bare_tagText hname) (by simp), close?_closing]
  rfl

/-- No quoted text goes on past a tag, which would be opened within it. -/
theorem mem_of_opensQuote {c : Char} (h : opensQuote c (tail ++ tagText name ++ after)) :
    c ∈ tail := by
  by_contra hc
  simp only [opensQuote, Bool.and_eq_true, Bool.or_eq_true, decide_eq_true_eq,
    Option.isNone_iff_eq_none] at h
  obtain ⟨⟨hquote, -⟩, hnone⟩ := h
  have hplain := opening?_eq_none hnone
  have hopening : ∀ x ∈ ['{', '%'], decide (x ≠ c) := by
    rcases hquote with rfl | rfl <;> simp
  have hbefore : ∀ x ∈ tail ++ ['{', '%'], decide (x ≠ c) := by
    intro x hx
    rcases List.mem_append.mp hx with hx | hx
    · exact decide_eq_true fun hxc => hc (hxc ▸ hx)
    · exact hopening x hx
  have hsplit : tail ++ tagText name ++ after = (tail ++ ['{', '%']) ++
      (' ' :: name.toList ++ ' ' :: Delimiter.tag.closing.toList ++ after) := by
    simp [tagText, Delimiter.opening]
  rw [hsplit, List.takeWhile_append_of_pos hbefore] at hplain
  have hlength := hplain .tag tail _ (by rw [List.append_nil]; rfl)
  simp only [List.length_append, List.length_cons] at hlength
  omega

/-- Markup is closed within a text, or else by the tag of a name after it. -/
def ClosedBy (name : String) (tail after : List Char) (closed : Option (List Char × List Char)) :
    Prop :=
  (∃ body rest, tail = body ++ Delimiter.tag.closing.toList ++ rest ∧
    closed = some (body, rest ++ tagText name ++ after)) ∨
  closed = some (tail ++ Delimiter.tag.opening.toList ++ ' ' :: name.toList ++ [' '], after)

theorem ClosedBy.prepend {closed : Option (List Char × List Char)}
    (h : ClosedBy name tail after closed) (c : Char) :
    ClosedBy name (c :: tail) after (Closed.prepend [c] closed) := by
  rcases h with ⟨body, rest, htail, hclosed⟩ | hclosed
  · exact .inl ⟨c :: body, rest, by rw [htail]; rfl, by rw [hclosed]; rfl⟩
  · exact .inr (by rw [hclosed]; rfl)

theorem close?_before_tagText (hname : IsTagName name) (after : List Char) {quoted : Option Char}
    (hquoted : ∀ q ∈ quoted, q ∈ tail) :
    ClosedBy name tail after (close? .tag quotes quoted (tail ++ tagText name ++ after)) := by
  induction tail generalizing quoted with
  | nil =>
    have hnone : quoted = none := by
      cases quoted with
      | none => rfl
      | some q => exact absurd (hquoted q rfl) List.not_mem_nil
    right
    rw [hnone, List.nil_append, close?_tagText hname]
    simp
  | cons c tail ih =>
    cases quoted with
    | some q =>
      have hlater : ∀ x ∈ if c = q then none else some q, x ∈ tail := by
        intro x hx
        split at hx
        · cases hx
        · rename_i hc
          cases hx
          exact (List.mem_cons.mp (hquoted q rfl)).resolve_left (Ne.symm hc)
      exact (ih hlater).prepend c
    | none =>
      have hstep : close? .tag quotes none (c :: tail ++ tagText name ++ after) =
          if quotes && opensQuote c (tail ++ tagText name ++ after) then
            Closed.prepend [c] (close? .tag quotes (some c) (tail ++ tagText name ++ after))
          else if c = '%' ∧ (tail ++ tagText name ++ after).head? = some '}' then
            some ([], (tail ++ tagText name ++ after).tail)
          else Closed.prepend [c] (close? .tag quotes none (tail ++ tagText name ++ after)) := rfl
      have hnothing : ∀ x ∈ (none : Option Char), x ∈ tail := by simp
      rw [hstep]
      split
      · rename_i hopens
        have hlater : ∀ x ∈ some c, x ∈ tail := by
          intro x hx
          cases hx
          exact mem_of_opensQuote (Bool.and_eq_true_iff.mp hopens).2
        exact (ih hlater).prepend c
      · split
        · rename_i hclosing
          obtain ⟨rfl, hhead⟩ := hclosing
          cases tail with
          | nil => cases hhead
          | cons b tail =>
            cases hhead
            exact .inl ⟨[], tail, rfl, rfl⟩
        · exact (ih hnothing).prepend c

/-- The tag of a name, read where it stands. -/
def endMarkup (name : String) (pos : Nat) : Markup :=
  ⟨.tag, ' ' :: name.toList ++ [' '], pos + 2, ⟨pos, pos + name.utf8ByteSize + 6⟩, false, false⟩

theorem trim_endMarkup (hname : IsTagName name) (pos : Nat) :
    String.ofList (Text.trim (endMarkup name pos).inner) = name := by
  have hparts : ∀ c ∈ name.toList, Text.isBlank c = false := fun c hc =>
    isBlank_eq_false_of_isTagNamePart (hname.2 c hc)
  rw [endMarkup, Text.trim_spaced hparts (by simpa using hname.1), String.ofList_toList]

theorem read?_endTag (hname : IsTagName name) (pos : Nat) (after : List Char) :
    read? pos .tag (' ' :: name.toList ++ ' ' :: Delimiter.tag.closing.toList ++ after)
      = some (endMarkup name pos, after) := by
  have hbare : ∀ x ∈ name.toList, isBare x := fun x hx =>
    isBare_of_isTagNamePart (hname.2 x hx)
  obtain ⟨hcomment, -, -⟩ := tag_parts hname (Delimiter.tag.closing.toList ++ after)
  have hnothing : Token.lexFrom 0 false [] = .ok [] := by rw [Token.lexFrom]
  have hread := read?_expression hbare hnothing (by simp) pos .tag after
    fun _ => by simpa using hcomment
  simpa [endMarkup, byteLength_toList] using hread

theorem read?_of_closed (pos : Nat) {d : Delimiter} {cs body rest : List Char}
    (hclose : close? d (!(d = .tag && isComment (if cs.head? = some '-' then cs.tail else cs))) none
      (if cs.head? = some '-' then cs.tail else cs) = some (body, rest)) :
    ∃ m, read? pos d cs = some (m, rest) ∧ m.inner ++ dash m.trimAfter = body := by
  have hread : (read? pos d cs).isSome := by
    simp only [read?, Option.bind_eq_bind]
    rw [hclose]
    rfl
  obtain ⟨⟨m, rest'⟩, hread⟩ := Option.isSome_iff_exists.mp hread
  refine ⟨m, ?_⟩
  simp only [read?, Option.bind_eq_bind] at hread ⊢
  rw [hclose] at hread ⊢
  cases hread
  exact ⟨rfl, by simpa using dropLast_append_dash body⟩

/-- A tag of the body does not end the block, also where only the end tag closes it. -/
theorem read?_before_tagText (hname : IsTagName name)
    (hbody : ∀ cs, cs <:+: '{' :: '%' :: tail → ¬ IsEndTag name cs) (pos : Nat)
    (after : List Char) :
    ∃ m rest, read? pos .tag (tail ++ tagText name ++ after) = some (m, rest) ∧
      String.ofList (Text.trim m.inner) ≠ name := by
  have hinside : (if (tail ++ tagText name ++ after).head? = some '-'
      then (tail ++ tagText name ++ after).tail else tail ++ tagText name ++ after)
        = (if tail.head? = some '-' then tail.tail else tail) ++ tagText name ++ after := by
    cases tail with
    | nil => rfl
    | cons c tail =>
      simp only [List.cons_append, List.head?_cons, List.tail_cons]
      by_cases hc : some c = some '-'
      · simp only [hc, if_true]
      · simp only [hc, if_false, List.cons_append]
  have hunquoted : ∀ q ∈ (none : Option Char),
      q ∈ if tail.head? = some '-' then tail.tail else tail := by simp
  rcases close?_before_tagText hname after hunquoted with ⟨body, rest, htail, hclose⟩ | hclose
  · obtain ⟨m, hread, -⟩ := read?_of_closed pos (d := .tag) (by rw [hinside]; exact hclose)
    refine ⟨m, _, hread, fun hend => ?_⟩
    obtain ⟨htag, htext, -⟩ := read?_eq_some hread
    have hprefix : '{' :: '%' :: tail = m.text ++ rest := by
      apply List.append_cancel_right
      simpa [Delimiter.opening] using htext
    exact hbody m.text ⟨[], rest, hprefix.symm⟩ (isEndTag_text htag hend)
  · obtain ⟨m, hread, hinner⟩ :=
      read?_of_closed pos (d := .tag) (by rw [hinside]; exact hclose)
    refine ⟨m, _, hread, fun hend => ?_⟩
    have hmem : '{' ∈ m.inner ++ dash m.trimAfter := by
      rw [hinner]
      simp [Delimiter.opening]
    have hbrace : '{' ∈ m.inner := by
      rcases List.mem_append.mp hmem with h | h
      · exact h
      · cases hdash : m.trimAfter <;> simp [dash, hdash] at h
    have hpart := hname.2 '{' (by
      rw [← hend, String.toList_ofList]
      exact Text.mem_trim hbrace (by decide))
    revert hpart
    decide

/-- A raw block goes up to the tag that ends it if no such tag stands in its body. -/
theorem rawEnd?_of_body (hname : IsTagName name) {body : List Char}
    (hbody : ∀ cs, cs <:+: body → ¬ IsEndTag name cs) (pos : Nat) (after : List Char) :
    rawEnd? name pos (body ++ tagText name ++ after)
      = .ok (some (body, endMarkup name (pos + byteLength body), after)) := by
  induction body generalizing pos with
  | nil =>
    have hcons : [] ++ tagText name ++ after
        = '{' :: '%' :: (' ' :: name.toList ++ ' ' :: Delimiter.tag.closing.toList ++ after) := rfl
    rw [hcons, rawEnd?_cons, if_pos ⟨rfl, rfl⟩, List.tail_cons, read?_endTag hname]
    simp only [trim_endMarkup hname, if_true]
    rfl
  | cons c body ih =>
    have hlater := ih (fun cs hcs => hbody cs (hcs.trans (List.suffix_cons c body).isInfix))
      (pos + c.utf8Size)
    have hfound : (Except.ok (some (body, endMarkup name (pos + c.utf8Size + byteLength body),
        after))).map (Found.prepend c)
          = (.ok (some (c :: body, endMarkup name (pos + byteLength (c :: body)), after)) :
            Except SyntaxError Found) := by
      rw [byteLength_cons, Nat.add_assoc]
      rfl
    rw [List.cons_append, List.cons_append, rawEnd?_cons, hlater, hfound]
    split
    · rename_i hopen
      obtain ⟨rfl, hhead⟩ := hopen
      cases body with
      | nil => cases hhead
      | cons b tail =>
        cases hhead
        obtain ⟨m, rest, hread, hnot⟩ := read?_before_tagText hname hbody pos after
        simp only [List.cons_append, List.tail_cons, hread, if_neg hnot]
    · rfl

end Markup

/-- The tags of a raw block around its body. -/
def rawBlock (name endTag body : String) : String :=
  "\x7b% " ++ name ++ " %\x7d" ++ body ++ "\x7b% " ++ endTag ++ " %\x7d"

namespace Piece

open Markup

/-- The tag of a name without arguments. -/
def plainTag (name : String) (start : Nat) : Piece :=
  .tag name " " (start + name.utf8ByteSize + 3) ⟨start, start + name.utf8ByteSize + 6⟩

/-- The pieces of a raw block that starts at a byte. -/
def ofRawBlock (name endTag body : String) (start : Nat) : List Piece :=
  let ending := start + name.utf8ByteSize + 6 + body.utf8ByteSize
  plainTag name start :: ofText false false body.toList ++ [plainTag endTag ending]

theorem toTag_endMarkup {name : String} (hname : IsTagName name) (pos : Nat) :
    (endMarkup name pos).toTag = .ok (plainTag name pos) := by
  have hinner : (endMarkup name pos).inner = ' ' :: name.toList ++ ' ' :: [] := by simp [endMarkup]
  rw [toTag_named hname hinner, plainTag]
  have hoffset : pos + 2 + name.utf8ByteSize + 1 = pos + name.utf8ByteSize + 3 := by omega
  simp only [endMarkup, hoffset]

/-- The pieces of a text, of a raw block after it, and of what follows these. -/
theorem scan_rawBlock {rawEnd? : String → Option String} {name endTag before body : String}
    (hname : IsTagName name) (hend : IsTagName endTag) (hraw : rawEnd? name = some endTag)
    (hbefore : Clear before.toList) (hbrace : before.toList.getLast? ≠ some '{')
    (hbody : ∀ cs, cs <:+: body.toList → ¬ IsEndTag endTag cs) (after : String) :
    scan rawEnd? (before ++ rawBlock name endTag body ++ after)
      = followedBy (ofText false false before.toList ++
          ofRawBlock name endTag body before.utf8ByteSize)
        (before.utf8ByteSize + (rawBlock name endTag body).utf8ByteSize) (scan rawEnd? after) := by
  let start := before.utf8ByteSize
  have hstart : 0 + byteLength before.toList = start := by rw [Nat.zero_add, byteLength_toList]
  have htext : (before ++ rawBlock name endTag body ++ after).toList =
      before.toList ++ Delimiter.tag.opening.toList ++
        (' ' :: name.toList ++ ' ' :: Delimiter.tag.closing.toList ++
          (body.toList ++ tagText endTag ++ after.toList)) := by
    simp [rawBlock, tagText, Delimiter.opening, Delimiter.closing]
  have hread := read?_endTag hname start (body.toList ++ tagText endTag ++ after.toList)
  have hnext := next?_append 0 (hbefore.plain hbrace _) (hstart.symm ▸ hread)
  have htagName : tagName (endMarkup name start).inner = name.toList := by
    simpa [endMarkup] using (tag_parts hname []).2.1
  have hfound := rawEnd?_of_body hend hbody (endMarkup name start).span.stop after.toList
  have hrawName : rawEnd? (String.ofList (tagName (endMarkup name start).inner)) = some endTag := by
    rw [htagName, String.ofList_toList, hraw]
  have hfrom := scanFrom_of_some rawEnd? false hnext
  have hstop : start + name.utf8ByteSize + 6 + body.utf8ByteSize + endTag.utf8ByteSize + 6
      = start + (rawBlock name endTag body).utf8ByteSize := by
    simp only [rawBlock, String.utf8ByteSize_append]
    have hdelimiters : "\x7b% ".utf8ByteSize = 3 ∧ " %\x7d".utf8ByteSize = 3 := by decide
    omega
  rw [hstart] at hfrom
  rw [scan, htext, hfrom, ← hstop, ← map_scanFrom]
  refine (scanMarkup_raw rfl (toTag_endMarkup hname start) hrawName hfound
    (toTag_endMarkup hend _)).trans ?_
  simp only [endMarkup, ofRawBlock, byteLength_toList, List.append_assoc, List.cons_append]
  rfl

end Piece

/-- The node of a text, if there is any. -/
def Node.ofText (s : String) : List Node := if s = "" then [] else [.text s]

namespace Progress

variable {g : Grammar} {source : SourceText} {origin : Origin} {rule : BlockRule} {body : String}
  {action : Action}

theorem foldlM_cons_of_ok {ε α β : Type} {f : β → α → Except ε β} {b b' : β} {a : α}
    (h : f b a = .ok b') (as : List α) : (a :: as).foldlM f b = as.foldlM f b' := by
  rw [List.foldlM_cons, h]
  rfl

theorem foldlM_append_of_ok {ε α β : Type} {f : β → α → Except ε β} {b b' : β} {as : List α}
    (h : as.foldlM f b = .ok b') (as' : List α) : (as ++ as').foldlM f b = as'.foldlM f b' := by
  rw [List.foldlM_append, h]
  rfl

theorem foldlM_text (s : String) :
    (Piece.ofText false false s.toList).foldlM (step g source origin) {}
      = .ok ⟨Node.ofText s, []⟩ := by
  rw [Piece.ofText_untrimmed, Node.ofText]
  split <;> rfl

theorem foldlM_rawBlock (hrule : g.block? rule.name = some rule)
    (hcompile : ∀ tag, rule.compile g.filters ⟨tag, Node.ofText body, []⟩ = .ok action)
    (root : List Node) (start : Nat) :
    (Piece.ofRawBlock rule.name rule.endTag body start).foldlM (step g source origin) ⟨root, []⟩
      = .ok ⟨.tag true rule.name (source.location start) action :: root, []⟩ := by
  let tag : TagSource := ⟨rule.name, " ", start + rule.name.utf8ByteSize + 3,
    source.location start, source, origin⟩
  have hopen : step g source origin ⟨root, []⟩ (Piece.plainTag rule.name start)
      = .ok ⟨root, [{ rule, tag }]⟩ := by
    simp only [step, Piece.plainTag, addTag, hrule]
    rfl
  have hbody : (Piece.ofText false false body.toList).foldlM (step g source origin)
      ⟨root, [{ rule, tag }]⟩ = .ok ⟨root, [{ rule, tag, body := Node.ofText body }]⟩ := by
    rw [Piece.ofText_untrimmed, Node.ofText]
    split <;> rfl
  have hblock : ({ rule, tag, body := Node.ofText body } : Frame).block
      = ⟨tag, Node.ofText body, []⟩ := by
    rw [Frame.block, Node.ofText]
    split <;> rfl
  have hclose (stop : Nat) : step g source origin
      ⟨root, [{ rule, tag, body := Node.ofText body }]⟩ (Piece.plainTag rule.endTag stop)
        = .ok ⟨.tag true rule.name (source.location start) action :: root, []⟩ := by
    simp only [step, Piece.plainTag, if_true, close, hblock, hcompile tag]
    rfl
  rw [Piece.ofRawBlock, List.cons_append, foldlM_cons_of_ok hopen, foldlM_append_of_ok hbody,
    foldlM_cons_of_ok (hclose _)]
  rfl

/-- What has been finished stays as it is. -/
theorem root_suffix_add (node : Node) (p : Progress) : p.root <:+ (p.add node).root := by
  rw [Progress.add]
  split
  · exact List.suffix_cons node p.root
  · exact List.suffix_refl _

theorem root_suffix_addTag {tag : TagSource} {p p' : Progress} (h : p.addTag g tag = .ok p') :
    p.root <:+ p'.root := by
  rw [addTag] at h
  split at h
  · cases h
    exact List.suffix_refl _
  · split at h
    · obtain ⟨action, -, hadd⟩ := bind_eq_ok.mp h
      cases hadd
      exact root_suffix_add _ p
    · split at h <;> cases h

theorem root_suffix_step {p p' : Progress} {piece : Piece}
    (h : p.step g source origin piece = .ok p') : p.root <:+ p'.root := by
  cases piece with
  | text s =>
    cases h
    exact root_suffix_add _ p
  | output body offset span =>
    obtain ⟨e, -, hadd⟩ := bind_eq_ok.mp h
    cases hadd
    exact root_suffix_add _ p
  | tag name args offset span =>
    simp only [step] at h
    split at h
    · exact root_suffix_addTag h
    · rename_i f outer _
      split at h
      · obtain ⟨action, -, hadd⟩ := bind_eq_ok.mp h
        cases hadd
        exact root_suffix_add _ ⟨p.root, outer⟩
      · split at h
        · cases h
          exact List.suffix_refl _
        · exact root_suffix_addTag h

theorem root_suffix_foldlM {pieces : List Piece} {p p' : Progress}
    (h : pieces.foldlM (step g source origin) p = .ok p') : p.root <:+ p'.root := by
  induction pieces generalizing p with
  | nil =>
    cases h
    exact List.suffix_refl _
  | cons piece pieces ih =>
    rw [List.foldlM_cons] at h
    obtain ⟨next, hstep, hlater⟩ := bind_eq_ok.mp h
    exact (root_suffix_step hstep).trans (ih hlater)

theorem finish_eq_ok {p : Progress} {nodes : List Node} (h : p.finish = .ok nodes) :
    nodes = p.root.reverse := by
  rw [finish] at h
  split at h
  · cases h
    rfl
  · cases h

end Progress

namespace Template

open Markup

/-- What comes of a text, a raw block after it and whatever follows these, where the block compiles
to `action` and that does `effect`. -/
structure StandsVerbatim (g : Grammar) (name endTag : String) (action : Action)
    (effect : Render Unit) (before body : String) : Prop where
  scan (after : String) : Piece.scan g.rawEnd? (before ++ rawBlock name endTag body ++ after)
    = Piece.followedBy (Piece.ofText false false before.toList ++
        Piece.ofRawBlock name endTag body before.utf8ByteSize)
      (before.utf8ByteSize + (rawBlock name endTag body).utf8ByteSize)
      (Piece.scan g.rawEnd? after)
  compile (after : String) (origin : Origin) (label : Option String) :
    let source : SourceText := ⟨before ++ rawBlock name endTag body ++ after, label⟩
    let block : Node := .tag true name (source.location before.utf8ByteSize) action
    Template.compile g origin source = (do
      let later ← (Piece.followedBy [] (before.utf8ByteSize +
        (rawBlock name endTag body).utf8ByteSize) (Piece.scan g.rawEnd? after)).mapError
          (source.syntaxError 0)
      let p ← later.foldlM (Progress.step g source origin) ⟨block :: Node.ofText before, []⟩
      return ⟨← p.finish, source⟩)
  nodes (after : String) (origin : Origin) (label : Option String) (t : Template) :
    let source : SourceText := ⟨before ++ rawBlock name endTag body ++ after, label⟩
    let block : Node := .tag true name (source.location before.utf8ByteSize) action
    Template.compile g origin source = .ok t →
      ∃ later, t.nodes = Node.ofText before ++ block :: later
  run (setting : Setting) (includer : Render.Includer) (location : Location) :
    Render.runNode setting includer (.tag true name location action)
      = (do effect; return .normal)

variable {g : Grammar} {rule : BlockRule} {before body : String} {action : Action}
  {effect : Render Unit}

theorem standsVerbatim (hrule : g.block? rule.name = some rule) (hraw : rule.raw = true)
    (hname : IsTagName rule.name) (hend : IsTagName rule.endTag)
    (hcompile : ∀ tag, rule.compile g.filters ⟨tag, Node.ofText body, []⟩ = .ok action)
    (heffect : ∀ setting includer location,
      Render.runNode setting includer (.tag true rule.name location action)
        = (do effect; return .normal))
    (hbefore : Clear before.toList) (hbrace : before.toList.getLast? ≠ some '{')
    (hbody : ∀ cs, cs <:+: body.toList → ¬ IsEndTag rule.endTag cs) :
    StandsVerbatim g rule.name rule.endTag action effect before body := by
  have hrawEnd : g.rawEnd? rule.name = some rule.endTag := by
    simp [Grammar.rawEnd?, hrule, hraw]
  have hscan := Piece.scan_rawBlock hname hend hrawEnd hbefore hbrace hbody
  have hcompile' (after : String) (origin : Origin) (label : Option String) :
      let source : SourceText := ⟨before ++ rawBlock rule.name rule.endTag body ++ after, label⟩
      let block : Node := .tag true rule.name (source.location before.utf8ByteSize) action
      Template.compile g origin source = (do
        let later ← (Piece.followedBy [] (before.utf8ByteSize +
          (rawBlock rule.name rule.endTag body).utf8ByteSize)
            (Piece.scan g.rawEnd? after)).mapError (source.syntaxError 0)
        let p ← later.foldlM (Progress.step g source origin) ⟨block :: Node.ofText before, []⟩
        return ⟨← p.finish, source⟩) := by
    intro source block
    have htext : source.text = before ++ rawBlock rule.name rule.endTag body ++ after := rfl
    rw [compile, htext, hscan, Piece.followedBy, Piece.followedBy]
    cases shifted (before.utf8ByteSize + (rawBlock rule.name rule.endTag body).utf8ByteSize)
      (List.map (Piece.shift _)) (Piece.scan g.rawEnd? after) with
    | error e => rfl
    | ok later =>
      have hfold : (Piece.ofText false false before.toList ++
          Piece.ofRawBlock rule.name rule.endTag body before.utf8ByteSize ++ later).foldlM
            (Progress.step g source origin) {}
          = later.foldlM (Progress.step g source origin) ⟨block :: Node.ofText before, []⟩ := by
        rw [List.append_assoc, Progress.foldlM_append_of_ok (Progress.foldlM_text before),
          Progress.foldlM_append_of_ok (Progress.foldlM_rawBlock hrule hcompile _ _)]
      simp only [Except.map, Except.mapError, bind, Except.bind, List.nil_append, hfold]
  refine ⟨hscan, hcompile', ?_, heffect⟩
  intro after origin label t source block ht
  rw [hcompile'] at ht
  obtain ⟨later, -, ht⟩ := bind_eq_ok.mp ht
  obtain ⟨p, hp, ht⟩ := bind_eq_ok.mp ht
  obtain ⟨nodes, hnodes, ht⟩ := bind_eq_ok.mp ht
  cases ht
  obtain ⟨front, hroot⟩ := Progress.root_suffix_foldlM hp
  have hreverse : (Node.ofText before).reverse = Node.ofText before := by
    rw [Node.ofText]
    split <;> rfl
  refine ⟨front.reverse, ?_⟩
  calc nodes = p.root.reverse := Progress.finish_eq_ok hnodes
    _ = (front ++ block :: Node.ofText before).reverse := by rw [← hroot]
    _ = Node.ofText before ++ block :: front.reverse := by simp [hreverse]

end Template

namespace Tags

theorem textOf_ofText (s : String) : textOf (Node.ofText s) = s := by
  rw [Node.ofText]
  split
  · rename_i hs
    rw [hs]
    rfl
  · simp [textOf, Node.text?, String.join]

end Tags

namespace Render

/-- What a sink refuses has no place in a template. -/
theorem locatedAt_write (location : Location) (s : String) :
    locatedAt location (do write s; return .normal)
      = (do write s; return .normal : Render Signal) := by
  funext t
  rw [locatedAt, bind_apply]
  simp only [write]
  cases t.captures with
  | cons buffer captures => rfl
  | nil =>
    simp only
    rcases t.sink.write s with ⟨fault | _, sink⟩ <;> rfl

end Render

namespace Template

open Markup

/-- The body of `raw` is written as it stands, that of `comment` is not written. -/
theorem raw_comment_verbatim {g : Grammar} (hraw : g.block? "raw" = some Tags.raw)
    (hcomment : g.block? "comment" = some Tags.comment) {before : String}
    (hbefore : Clear before.toList) (hbrace : before.toList.getLast? ≠ some '{') (body : String) :
    ((∀ cs, cs <:+: body.toList → ¬ IsEndTag "endraw" cs) →
      StandsVerbatim g "raw" "endraw" (.write body) (Render.write body) before body) ∧
    ((∀ cs, cs <:+: body.toList → ¬ IsEndTag "endcomment" cs) →
      StandsVerbatim g "comment" "endcomment" .nothing (pure ()) before body) := by
  constructor
  · intro hbody
    have hrule : g.block? Tags.raw.name = some Tags.raw := hraw
    have hname : IsTagName "raw" := ⟨by decide, by simp; decide⟩
    have hend : IsTagName "endraw" := ⟨by decide, by simp; decide⟩
    refine standsVerbatim hrule rfl hname hend ?_ ?_ hbefore hbrace hbody
    · intro tag
      exact congrArg (fun s => Except.ok (Action.write s)) (Tags.textOf_ofText body)
    · intro setting includer location
      rw [Render.runNode, Render.runAction, Render.locatedAt_write]
  · intro hbody
    have hrule : g.block? Tags.comment.name = some Tags.comment := hcomment
    have hname : IsTagName "comment" := ⟨by decide, by simp; decide⟩
    have hend : IsTagName "endcomment" := ⟨by decide, by simp; decide⟩
    refine standsVerbatim hrule rfl hname hend (fun _ => rfl) ?_ hbefore hbrace hbody
    intro setting includer location
    rw [Render.runNode, Render.runAction]
    rfl

/-- Bodies with markup and quotes that nothing closes. -/
theorem raw_comment_verbatim_unclosed :
    Piece.scan Grammar.standard.rawEnd?
        ("a" ++ rawBlock "raw" "endraw" "\x7b\x7b 'x \x7b%- if %\x7d \x7b% \"" ++ "b")
      = .ok [.text "a", .tag "raw" " " 7 ⟨1, 10⟩, .text "\x7b\x7b 'x \x7b%- if %\x7d \x7b% \"",
          .tag "endraw" " " 39 ⟨30, 42⟩, .text "b"] ∧
    (∀ setting includer location, Render.runNode setting includer
        (.tag true "raw" location (.write "\x7b\x7b 'x \x7b%- if %\x7d \x7b% \""))
      = (do Render.write "\x7b\x7b 'x \x7b%- if %\x7d \x7b% \""; return .normal)) ∧
    Piece.scan Grammar.standard.rawEnd?
        ("a" ++ rawBlock "comment" "endcomment" "\x7b\x7b 'x \x7b%- if %\x7d \x7b% \"" ++ "b")
      = .ok [.text "a", .tag "comment" " " 11 ⟨1, 14⟩,
          .text "\x7b\x7b 'x \x7b%- if %\x7d \x7b% \"", .tag "endcomment" " " 47 ⟨34, 50⟩,
          .text "b"] := by
  have hend {name : String}
      (hname : ¬ name.toList <:+: "\x7b\x7b 'x \x7b%- if %\x7d \x7b% \"".toList) :
      ∀ cs, cs <:+: "\x7b\x7b 'x \x7b%- if %\x7d \x7b% \"".toList → ¬ IsEndTag name cs := by
    rintro cs hcs ⟨before, after, left, right, -, -, htag⟩
    refine hname (List.IsInfix.trans ⟨Delimiter.tag.opening.toList ++ dash before ++ left,
      right ++ dash after ++ Delimiter.tag.closing.toList, ?_⟩ hcs)
    rw [htag]
    simp only [List.append_assoc]
  have hbefore : Clear "a".toList := by intro d; cases d <;> decide
  obtain ⟨hraw, hcomment⟩ := raw_comment_verbatim (g := Grammar.standard) (by rfl) (by rfl) hbefore
    (by decide) "\x7b\x7b 'x \x7b%- if %\x7d \x7b% \""
  have hraw := hraw (hend (by decide))
  refine ⟨(hraw.scan "b").trans (by cbv), hraw.run, ?_⟩
  exact ((hcomment (hend (by decide))).scan "b").trans (by cbv)

end Template

end Stencil
