import Stencil.Markup.Piece
import Stencil.Proofs.Results

/-!
# Reading markup

What the readers of markup take from the characters before them: nothing is lost between the text,
the delimiters, their dashes and what is inside, and no delimiter is passed over.
-/
namespace Stencil

/-- What stops a search for a character is the character. -/
theorem eq_of_dropWhile_ne {c close : Char} {cs rest : List Char}
    (h : cs.dropWhile (· ≠ c) = close :: rest) : close = c := by
  have hhead := List.head?_dropWhile_not (· ≠ c) cs
  rw [h] at hhead
  simpa using hhead

namespace Delimiter

theorem toList_closing (d : Delimiter) : d.closing.toList = [d.closer, '}'] := by cases d <;> rfl

@[simp] theorem byteLength_opening (d : Delimiter) : byteLength d.opening.toList = 2 := by
  cases d <;> rfl

@[simp] theorem byteLength_closing (d : Delimiter) : byteLength d.closing.toList = 2 := by
  cases d <;> rfl

end Delimiter

namespace Markup

/-- The dash of a delimiter that has one. -/
def dash (trims : Bool) : List Char := if trims then ['-'] else []

/-- What markup was read from. A single dash between two delimiters is that of the first. -/
def text (m : Markup) : List Char :=
  m.delimiter.opening.toList ++ dash m.trimBefore ++ m.inner ++ dash m.trimAfter ++
    m.delimiter.closing.toList

@[simp] theorem byteLength_dash (trims : Bool) :
    byteLength (dash trims) = if trims then 1 else 0 := by cases trims <;> rfl

theorem dash_append_tail (cs : List Char) :
    dash (cs.head? = some '-') ++ (if cs.head? = some '-' then cs.tail else cs) = cs := by
  by_cases h : cs.head? = some '-'
  · obtain ⟨tail, rfl⟩ := List.head?_eq_some_iff.mp h
    simp [dash]
  · simp [dash, h]

theorem dropLast_append_dash (cs : List Char) :
    (if cs.getLast? = some '-' then cs.dropLast else cs) ++ dash (cs.getLast? = some '-') = cs := by
  by_cases h : cs.getLast? = some '-'
  · obtain ⟨init, rfl⟩ := List.getLast?_eq_some_iff.mp h
    simp [dash]
  · simp [dash, h]

/-- No opening delimiter starts within `cs` where `ds` comes next. -/
def Plain (cs ds : List Char) : Prop :=
  ∀ (d : Delimiter) (before after : List Char), cs ++ ds = before ++ d.opening.toList ++ after →
    cs.length ≤ before.length

theorem plain_nil (ds : List Char) : Plain [] ds := fun _ _ _ _ => Nat.zero_le _

theorem Plain.cons {c : Char} {cs ds : List Char} (h : Plain cs ds)
    (houtput : ∀ rest, c = '{' → cs ++ ds = '{' :: rest → False)
    (htag : ∀ rest, c = '{' → cs ++ ds = '%' :: rest → False) : Plain (c :: cs) ds := by
  intro d before after he
  cases before with
  | nil =>
    cases d with
    | output => exact (houtput after (List.cons.inj he).1 (List.cons.inj he).2).elim
    | tag => exact (htag after (List.cons.inj he).1 (List.cons.inj he).2).elim
  | cons b before =>
    have htail : cs ++ ds = before ++ d.opening.toList ++ after := (List.cons.inj he).2
    exact Nat.succ_le_succ (h d before after htail)

theorem Plain.of_append {cs ds es : List Char} (h : Plain cs (ds ++ es)) : Plain cs ds := by
  intro d before after he
  refine h d before (after ++ es) ?_
  rw [← List.append_assoc, he, List.append_assoc]

theorem opening?_eq_none {cs : List Char} (h : opening? cs = none) : Plain cs [] := by
  induction cs with
  | nil => exact plain_nil []
  | cons c cs ih =>
    simp only [opening?] at h
    split at h
    · cases h
    · cases h
    · rename_i houtput htag
      have hplain : Plain cs [] := ih (Option.map_eq_none_iff.mp h)
      refine hplain.cons ?_ ?_ <;> rwa [List.append_nil]

theorem opening?_eq_some {cs before rest : List Char} {d : Delimiter}
    (h : opening? cs = some (before, d, rest)) :
    cs = before ++ d.opening.toList ++ rest ∧ Plain before (d.opening.toList ++ rest) := by
  induction cs generalizing before with
  | nil => cases h
  | cons c cs ih =>
    simp only [opening?] at h
    split at h
    · cases h
      exact ⟨rfl, plain_nil _⟩
    · cases h
      exact ⟨rfl, plain_nil _⟩
    · rename_i houtput htag
      obtain ⟨⟨before', d', rest'⟩, h', he⟩ := Option.map_eq_some_iff.mp h
      cases he
      obtain ⟨hcs, hplain⟩ := ih h'
      refine ⟨by rw [hcs]; rfl, hplain.cons ?_ ?_⟩ <;> rwa [← List.append_assoc, ← hcs]

/-- Markup is closed here, or further on. -/
theorem close?_cases {d : Delimiter} {quotes : Bool} {quoted : Option Char} {c : Char}
    {cs body rest : List Char} (h : close? d quotes quoted (c :: cs) = some (body, rest)) :
    body = [] ∧ c :: cs = d.closing.toList ++ rest ∨
    ∃ q body', body = c :: body' ∧ close? d quotes q cs = some (body', rest) ∧
      (quotes = false → quoted = none → q = none ∧ ¬ (c = d.closer ∧ cs.head? = some '}')) := by
  have later {q : Option Char}
      (h : (close? d quotes q cs).map (fun found => (c :: found.1, found.2)) = some (body, rest)) :
      ∃ body', body = c :: body' ∧ close? d quotes q cs = some (body', rest) := by
    obtain ⟨⟨body', rest'⟩, hclose, he⟩ := Option.map_eq_some_iff.mp h
    cases he
    exact ⟨body', rfl, hclose⟩
  cases quoted with
  | some q =>
    obtain ⟨body', hbody, hclose⟩ := later h
    exact .inr ⟨_, body', hbody, hclose, fun _ hnone => by cases hnone⟩
  | none =>
    simp only [close?] at h
    split at h
    · rename_i hquote
      obtain ⟨body', hbody, hclose⟩ := later h
      refine .inr ⟨_, body', hbody, hclose, fun hquotes _ => ?_⟩
      simp [hquotes] at hquote
    · split at h
      · rename_i hcloser
        cases h
        obtain ⟨tail, rfl⟩ := List.head?_eq_some_iff.mp hcloser.2
        exact .inl ⟨rfl, by rw [hcloser.1, d.toList_closing]; rfl⟩
      · rename_i hcloser
        obtain ⟨body', hbody, hclose⟩ := later h
        exact .inr ⟨none, body', hbody, hclose, fun _ _ => ⟨rfl, hcloser⟩⟩

theorem close?_eq_some {d : Delimiter} {quotes : Bool} {quoted : Option Char}
    {cs body rest : List Char} (h : close? d quotes quoted cs = some (body, rest)) :
    cs = body ++ d.closing.toList ++ rest := by
  induction cs generalizing quoted body with
  | nil => cases quoted <;> cases h
  | cons c cs ih =>
    rcases close?_cases h with ⟨rfl, hcs⟩ | ⟨q, body', rfl, hclose, -⟩
    · exact hcs
    · rw [ih hclose]
      rfl

/-- Where quotes do not count, markup ends at its first closing delimiter. -/
theorem close?_first {d : Delimiter} {cs body rest : List Char}
    (h : close? d false none cs = some (body, rest)) : ¬ d.closing.toList <:+: body := by
  induction cs generalizing body with
  | nil => cases h
  | cons c cs ih =>
    rcases close?_cases h with ⟨rfl, -⟩ | ⟨q, body', rfl, hclose, hopen⟩
    · rw [d.toList_closing]
      simp
    · obtain ⟨rfl, hcloser⟩ := hopen rfl rfl
      -- an earlier closing delimiter would begin with `c`, where the reader did not stop
      intro hinfix
      rcases List.infix_cons_iff.mp hinfix with hprefix | hinfix
      · rw [d.toList_closing, List.cons_prefix_cons] at hprefix
        obtain ⟨hc, tail, rfl⟩ := hprefix
        have hcs : cs = '}' :: tail ++ d.closing.toList ++ rest := close?_eq_some hclose
        exact hcloser ⟨hc.symm, by rw [hcs]; rfl⟩
      · exact ih hclose hinfix

/-- Markup as it is read at `pos`. -/
structure StandsAt (pos : Nat) (m : Markup) : Prop where
  span : m.span = ⟨pos, pos + byteLength m.text⟩
  offset : m.offset = pos + byteLength (m.delimiter.opening.toList ++ dash m.trimBefore)
  /-- An opening delimiter without a dash has none after it. -/
  before : m.trimBefore = false → (m.inner ++ dash m.trimAfter).head? ≠ some '-'
  /-- A closing delimiter without a dash has none before it. -/
  after : m.trimAfter = false → m.inner.getLast? ≠ some '-'
  /-- A comment ends at the first closing delimiter. -/
  comment : m.delimiter = .tag → isComment m.inner → ¬ m.delimiter.closing.toList <:+: m.inner

theorem isComment_append {cs : List Char} (ds : List Char) (h : isComment cs) :
    isComment (cs ++ ds) := by
  unfold isComment at h ⊢
  rw [decide_eq_true_eq] at h ⊢
  obtain ⟨tail, htail⟩ := List.head?_eq_some_iff.mp h
  rw [Text.trimStart] at htail ⊢
  rw [List.dropWhile_append, htail]
  simp

/-- All that reading markup does. -/
theorem read?_cases {pos : Nat} {d : Delimiter} {cs rest : List Char} {m : Markup}
    (h : read? pos d cs = some (m, rest)) :
    ∃ inside body, cs = dash m.trimBefore ++ inside ∧ body = m.inner ++ dash m.trimAfter ∧
      close? d (!(d = .tag && isComment inside)) none inside = some (body, rest) ∧
      m.trimBefore = decide (cs.head? = some '-') ∧
      m.trimAfter = decide (body.getLast? = some '-') ∧ m.delimiter = d ∧
      m.offset = pos + 2 + byteLength (dash m.trimBefore) ∧
      m.span = ⟨pos, m.offset + byteLength body + 2⟩ := by
  simp only [read?, Option.bind_eq_bind, Option.bind_eq_some_iff] at h
  obtain ⟨⟨body, rest'⟩, hclose, he⟩ := h
  cases he
  refine ⟨_, body, ?_, ?_, hclose, rfl, rfl, rfl, ?_, rfl⟩
  · simpa using (dash_append_tail cs).symm
  · simpa using (dropLast_append_dash body).symm
  · simp

theorem read?_eq_some {pos : Nat} {d : Delimiter} {cs rest : List Char} {m : Markup}
    (h : read? pos d cs = some (m, rest)) :
    m.delimiter = d ∧ d.opening.toList ++ cs = m.text ++ rest ∧ m.StandsAt pos := by
  obtain ⟨inside, body, hcs, hbody, hclose, hbefore, hafter, rfl, hoffset, hspan⟩ := read?_cases h
  have hinside : inside = body ++ m.delimiter.closing.toList ++ rest := close?_eq_some hclose
  refine ⟨rfl, ?_, ?_, ?_, fun hno => ?_, fun hno => ?_, fun htag hcomment => ?_⟩
  · rw [hcs, hinside, hbody, text]
    simp only [List.append_assoc]
  · rw [hspan, hoffset, hbody, text]
    simp only [byteLength_append, Delimiter.byteLength_opening, Delimiter.byteLength_closing]
    congr 1
    omega
  · rw [hoffset, byteLength_append, Delimiter.byteLength_opening, Nat.add_assoc]
  · rw [hno, eq_comm, decide_eq_false_iff_not, hcs, hno, hinside] at hbefore
    rw [← hbody]
    intro hdash
    apply hbefore
    obtain ⟨tail, rfl⟩ := List.head?_eq_some_iff.mp hdash
    rfl
  · rw [hno, eq_comm, decide_eq_false_iff_not, hbody, hno] at hafter
    simpa [dash] using hafter
  · -- the reader looks for the mark of a comment in all that follows, the end included
    have hin : isComment inside := by
      rw [hinside, hbody, List.append_assoc, List.append_assoc]
      exact isComment_append _ hcomment
    rw [htag, hin] at hclose
    intro hinfix
    refine close?_first hclose ?_
    rw [hbody, ← htag]
    exact hinfix.trans (List.infix_append' [] _ _)

theorem next?_eq_none {pos : Nat} {cs : List Char} (h : next? pos cs = .ok none) :
    Plain cs [] := by
  unfold next? at h
  split at h
  · rename_i ho
    exact opening?_eq_none ho
  · simp only at h
    split at h <;> cases h

theorem next?_eq_some {pos : Nat} {cs before rest : List Char} {m : Markup}
    (h : next? pos cs = .ok (some (before, m, rest))) :
    cs = before ++ m.text ++ rest ∧ Plain before m.text ∧
      m.StandsAt (pos + byteLength before) := by
  unfold next? at h
  split at h
  · cases h
  · rename_i before' d rest' ho
    simp only at h
    split at h
    · rename_i hr
      cases h
      obtain ⟨hcs, hplain⟩ := opening?_eq_some ho
      obtain ⟨-, htext, hstands⟩ := read?_eq_some hr
      rw [htext] at hplain
      exact ⟨by rw [hcs, List.append_assoc, htext, List.append_assoc], hplain.of_append, hstands⟩
    · cases h

theorem prepend_eq_ok {c : Char} {body rest : List Char} {m : Markup}
    {found : Except SyntaxError (Option (List Char × Markup × List Char))}
    (h : (do
      match ← found with
      | some (before, m, rest) => return some (c :: before, m, rest)
      | none => return none) = .ok (some (body, m, rest))) :
    ∃ body', body = c :: body' ∧ found = .ok (some (body', m, rest)) := by
  obtain ⟨found', hfound, h⟩ := bind_eq_ok.mp h
  rcases found' with _ | ⟨body', m', rest'⟩
  · cases h
  · cases h
    exact ⟨body', rfl, hfound⟩

/-- A raw block ends at a tag that starts here, or further on. -/
theorem rawEnd?_cases {endTag : String} {pos : Nat} {c : Char} {cs body rest : List Char}
    {m : Markup} (h : rawEnd? endTag pos (c :: cs) = .ok (some (body, m, rest))) :
    (∃ tail, c :: cs = Delimiter.tag.opening.toList ++ tail ∧ body = [] ∧
      read? pos .tag tail = some (m, rest) ∧ String.ofList (Text.trim m.inner) = endTag) ∨
    ∃ body', body = c :: body' ∧
      rawEnd? endTag (pos + c.utf8Size) cs = .ok (some (body', m, rest)) := by
  simp only [rawEnd?] at h
  split at h
  · rename_i hopen
    obtain ⟨tail, rfl⟩ := List.head?_eq_some_iff.mp hopen.2
    split at h
    · cases h
    · rename_i hr
      split at h
      · rename_i hend
        cases h
        exact .inl ⟨tail, by rw [hopen.1]; rfl, rfl, hr, hend⟩
      · exact .inr (prepend_eq_ok h)
  · exact .inr (prepend_eq_ok h)

theorem rawEnd?_eq_some {endTag : String} {pos : Nat} {cs body rest : List Char} {m : Markup}
    (h : rawEnd? endTag pos cs = .ok (some (body, m, rest))) :
    cs = body ++ m.text ++ rest ∧ m.StandsAt (pos + byteLength body) ∧ m.delimiter = .tag ∧
      String.ofList (Text.trim m.inner) = endTag := by
  induction cs generalizing pos body with
  | nil => cases h
  | cons c cs ih =>
    rcases rawEnd?_cases h with ⟨tail, hcs, rfl, hr, hend⟩ | ⟨body', rfl, hr⟩
    · obtain ⟨htag, htext, hstands⟩ := read?_eq_some hr
      exact ⟨by rw [hcs, htext]; rfl, hstands, htag, hend⟩
    · obtain ⟨hcs, hstands, htag, hend⟩ := ih hr
      refine ⟨by rw [hcs]; rfl, ?_, htag, hend⟩
      rwa [byteLength_cons, ← Nat.add_assoc]

theorem toTag_eq_ok {m : Markup} {piece : Piece} (h : m.toTag = .ok piece) :
    tagName m.inner ≠ [] ∧
      piece = .tag (String.ofList (tagName m.inner)) (String.ofList (tagArgs m.inner))
        (m.offset + (byteLength m.inner - byteLength (tagArgs m.inner))) m.span := by
  unfold toTag at h
  split at h
  · cases h
  · rename_i hname
    cases h
    exact ⟨hname, rfl⟩

theorem isComment_eq_false_of_tagName {inner : List Char} (h : tagName inner ≠ []) :
    isComment inner = false := by
  cases hcs : Text.trimStart inner with
  | nil => simp [isComment, hcs]
  | cons c cs =>
    have hc : c ≠ '#' := by
      rintro rfl
      exact h (by rw [tagName, hcs]; rfl)
    simp [isComment, hcs, hc]

end Markup

end Stencil
