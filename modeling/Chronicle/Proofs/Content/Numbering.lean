import Chronicle.Proofs.Content.Thresholds
import Chronicle.Report.Text

/-!
# Listings with line numbers

A listing whose every line has a number is told from JSON and from a patch, and its lines are got
back by taking away the numbers, however much they look like numbered lines themselves.

* `NumberedLine`: a line behind its gutter, that is indentation, digits and a separator.
* `afterNumber?_text`: exactly the gutter is taken away.
* `Undone`, `undone_listing`: what is told of a listing, and of its lines without numbers.
-/

namespace Chronicle.Content

open Text

/-- A line behind its number. -/
structure NumberedLine where
  indent : List Char
  number : List Char
  separator : Char
  line : List Char
  indented : ∀ c ∈ indent, c = ' ' ∨ c = '\t'
  numbered : number ≠ []
  digits : ∀ c ∈ number, c.isDigit = true
  separated : separator = '→' ∨ separator = '\t' ∨ separator = ':'
  /-- The line holds no end of a line. -/
  oneLine : '\n' ∉ line
  noReturn : line.getLast? ≠ some '\r'

namespace NumberedLine

def text (r : NumberedLine) : List Char := r.indent ++ (r.number ++ r.separator :: r.line)

end NumberedLine

/-- The text of numbered lines, whose last line is closed by a line feed or not. -/
def listing (rows : List NumberedLine) (closed : Bool) : String :=
  String.ofList (joinLines (rows.map NumberedLine.text) ++ if closed then ['\n'] else [])

def unnumbered (rows : List NumberedLine) : String :=
  String.ofList (joinLines (rows.map NumberedLine.line))

/-! ## One line -/

namespace NumberedLine

variable (r : NumberedLine)

theorem isBlank_of_mem_indent : ∀ c ∈ r.indent, isBlank c = true := by
  intro c hc
  rcases r.indented c hc with rfl | rfl <;> decide

theorem exists_digit : ∃ d digits, r.number = d :: digits ∧ d.isDigit = true := by
  obtain ⟨d, digits, hnumber⟩ := List.exists_cons_of_ne_nil r.numbered
  exact ⟨d, digits, hnumber, r.digits d (hnumber ▸ List.mem_cons_self)⟩

theorem dropWhile_isBlank_text (more : List Char) :
    (r.text ++ more).dropWhile isBlank = r.number ++ r.separator :: (r.line ++ more) := by
  obtain ⟨d, digits, hnumber, hd⟩ := r.exists_digit
  rw [text, List.append_assoc, List.dropWhile_append_of_pos r.isBlank_of_mem_indent, hnumber]
  simp [isBlank_of_isDigit hd]

/-- **Exactly the gutter is taken away**, whatever the line itself begins with. -/
theorem afterNumber?_text : afterNumber? r.text = some r.line :=
  afterNumber?_gutter r.isBlank_of_mem_indent r.numbered
    (fun c hc => isDigit_of_isDigit (r.digits c hc)) (by simpa using r.separated)

theorem text_ne_nil : r.text ≠ [] := by
  simp [text]

theorem newline_notMem_text : '\n' ∉ r.text := by
  have hindent : '\n' ∉ r.indent := fun h => by
    rcases r.indented _ h with h | h <;> exact absurd h (by decide)
  have hnumber : '\n' ∉ r.number := fun h => absurd (r.digits _ h) (by decide)
  have hseparator : '\n' ≠ r.separator := by
    rcases r.separated with h | h | h <;> rw [h] <;> decide
  simp [text, hindent, hnumber, hseparator, r.oneLine]

theorem withoutReturn_text : withoutReturn r.text = r.text := by
  have hlast : r.text.getLast? ≠ some '\r' := by
    have hseparator : r.separator ≠ '\r' := by
      rcases r.separated with h | h | h <;> rw [h] <;> decide
    have hline := r.noReturn
    rw [text, List.getLast?_append, List.getLast?_append, List.getLast?_cons]
    cases hlast : r.line.getLast? with
    | none => simpa using hseparator
    | some c => simpa [hlast] using hline
  rw [withoutReturn, if_neg hlast]

theorem exists_head_text : ∃ c more, r.text = c :: more ∧ (c = ' ' ∨ c = '\t' ∨ c.isDigit = true) := by
  obtain ⟨d, digits, hnumber, hd⟩ := r.exists_digit
  cases hindent : r.indent with
  | nil => exact ⟨d, digits ++ r.separator :: r.line, by rw [text, hindent, hnumber]; rfl, .inr (.inr hd)⟩
  | cons c indent =>
    refine ⟨c, indent ++ (r.number ++ r.separator :: r.line), by rw [text, hindent]; rfl, ?_⟩
    rcases r.indented c (hindent ▸ List.mem_cons_self) with h | h
    · exact .inl h
    · exact .inr (.inl h)

theorem visible_text : (!r.text.all isBlank) = true := by
  obtain ⟨d, digits, hnumber, hd⟩ := r.exists_digit
  rw [Bool.not_eq_true', ← Bool.not_eq_true, List.all_eq_true]
  intro hall
  have hblank := hall d (by simp [text, hnumber])
  rw [isBlank_of_isDigit hd] at hblank
  cases hblank

end NumberedLine

/-! ## The listing -/

variable {rows : List NumberedLine}

theorem linesOf_listing (hne : rows ≠ []) (closed : Bool) :
    linesOf (listing rows closed).toList = rows.map NumberedLine.text := by
  rw [listing, String.toList_ofList]
  apply linesOf_joinLines
  · simpa using hne
  · intro line hline
    obtain ⟨r, -, rfl⟩ := List.mem_map.mp hline
    exact ⟨r.newline_notMem_text, r.withoutReturn_text, r.text_ne_nil⟩

theorem visibleLines_listing (hne : rows ≠ []) (closed : Bool) :
    visibleLines (listing rows closed).toList = rows.map NumberedLine.text := by
  rw [visibleLines, linesOf_listing hne]
  apply List.filter_eq_self.mpr
  intro line hline
  obtain ⟨r, -, rfl⟩ := List.mem_map.mp hline
  exact r.visible_text

theorem exists_toList_listing (r : NumberedLine) (rows : List NumberedLine) (closed : Bool) :
    ∃ more, (listing (r :: rows) closed).toList = r.text ++ more := by
  rw [listing, String.toList_ofList, List.map_cons]
  cases rows with
  | nil => exact ⟨_, rfl⟩
  | cons s rows => exact ⟨_, List.append_assoc _ _ _⟩

theorem withoutNumbers_listing (hne : rows ≠ []) (closed : Bool) :
    withoutNumbers (listing rows closed) = unnumbered rows := by
  have hline : ∀ r : NumberedLine, (afterNumber? r.text).getD r.text = r.line := fun r => by
    rw [r.afterNumber?_text, Option.getD_some]
  rw [withoutNumbers, linesOf_listing hne, List.map_map, unnumbered]
  exact congrArg (fun lines => String.ofList (joinLines lines)) (List.map_congr_left fun r _ => hline r)

theorem holdsJson_listing (r : NumberedLine) (rows : List NumberedLine) (closed : Bool) :
    holdsJson (listing (r :: rows) closed) = false := by
  obtain ⟨more, htext⟩ := exists_toList_listing r rows closed
  obtain ⟨d, digits, hnumber, hd⟩ := r.exists_digit
  obtain ⟨rest, hrest⟩ : ∃ rest, trim (listing (r :: rows) closed).toList = d :: rest := by
    have hstart : trimStart (listing (r :: rows) closed).toList =
        d :: (digits ++ r.separator :: (r.line ++ more)) := by
      rw [htext, trimStart, r.dropWhile_isBlank_text, hnumber]
      rfl
    rw [trim, hstart]
    exact ⟨_, trimEnd_cons (isBlank_of_isDigit hd) _⟩
  have hopen : d ≠ '\x7b' ∧ d ≠ '[' := by
    constructor <;> (rintro rfl; exact absurd hd (by decide))
  unfold holdsJson
  rw [hrest]
  cases rest with
  | nil => rfl
  | cons c rest => simp [hopen]

theorem beginsWith_text_append (r : NumberedLine) (more : List Char) {start : String}
    (hstart : start ∈ ["@@", "+", "-"] ++ patchOpenings) :
    beginsWith start (r.text ++ more) = false := by
  obtain ⟨c, rest, htext, hc⟩ := r.exists_head_text
  have hpatch : c ∉ ['d', '-', '+', '@', 'I'] := by
    rintro hmem
    rcases hc with rfl | rfl | hc
    · exact absurd hmem (by decide)
    · exact absurd hmem (by decide)
    · simp only [List.mem_cons, List.not_mem_nil, or_false] at hmem
      rcases hmem with rfl | rfl | rfl | rfl | rfl <;> exact absurd hc (by decide)
  have hopenings : (["@@", "+", "-"] ++ patchOpenings).all fun start =>
      start.toList.head?.any fun d => ['d', '-', '+', '@', 'I'].contains d := by decide
  obtain ⟨d, hd, hmem⟩ := (Option.any_eq_true _ _).mp (List.all_eq_true.mp hopenings start hstart)
  rw [List.contains_iff_mem] at hmem
  rw [htext, List.cons_append]
  exact beginsWith_cons_of_ne hd fun hdc => hpatch (hdc ▸ hmem)

theorem isPatchLine_text (r : NumberedLine) : isPatchLine r.text = false := by
  have hbegins (start : String) (hstart : start ∈ ["@@", "+", "-"]) :
      beginsWith start r.text = false := by
    have h := beginsWith_text_append r [] (List.mem_append_left patchOpenings hstart)
    rwa [List.append_nil] at h
  rw [isPatchLine, hbegins "@@" (by simp), hbegins "+" (by simp), hbegins "-" (by simp)]
  rfl

theorem isPatch_listing (r : NumberedLine) (rows : List NumberedLine) (closed : Bool) :
    isPatch (listing (r :: rows) closed) = false := by
  obtain ⟨more, htext⟩ := exists_toList_listing r rows closed
  have hopen : patchOpenings.any (beginsWith · (listing (r :: rows) closed).toList) = false := by
    rw [htext, List.any_eq_false]
    intro start hstart
    rw [beginsWith_text_append r more (List.mem_append_right _ hstart)]
    exact Bool.false_ne_true
  have hcount : (visibleLines (listing (r :: rows) closed).toList).countP isPatchLine = 0 := by
    rw [visibleLines_listing (List.cons_ne_nil r rows), List.countP_eq_zero]
    intro line hline
    obtain ⟨s, -, rfl⟩ := List.mem_map.mp hline
    simp [isPatchLine_text s]
  have hshare : isShare 3 0 ((r :: rows).map NumberedLine.text).length = false :=
    isTenths_three.isShare_zero (Nat.zero_lt_succ _)
  unfold isPatch
  simp only [hopen, hcount, Bool.false_or]
  rw [visibleLines_listing (List.cons_ne_nil r rows), hshare, Bool.and_false]

theorem isListing_listing (htwo : 2 ≤ rows.length) (closed : Bool) :
    isListing (listing rows closed) = true := by
  have hne : rows ≠ [] := by
    rintro rfl
    simp at htwo
  have hcount : (rows.map NumberedLine.text).countP (fun line => (afterNumber? line).isSome) =
      rows.length := by
    rw [List.countP_eq_length.mpr, List.length_map]
    intro line hline
    obtain ⟨r, -, rfl⟩ := List.mem_map.mp hline
    rw [r.afterNumber?_text]
    rfl
  have hshare : isShare 4 rows.length rows.length = true := isTenths_four.isShare_self (by omega)
  unfold isListing
  simp only [visibleLines_listing hne, linesOf_listing hne, hcount, List.length_map,
    List.isEmpty_map, List.isEmpty_eq_false_iff.mpr hne, hshare, Bool.and_true, Bool.not_false]
  exact decide_eq_true htwo

/-- What is told of a listing of these rows. -/
structure Undone (rows : List NumberedLine) (closed : Bool) : Prop where
  shape : Shape.of (listing rows closed) = .lineNumbered
  /-- The lines come back as they were. -/
  lines : withoutNumbers (listing rows closed) = unnumbered rows
  /-- The language is that of the lines. -/
  language : (Inspection.of (listing rows closed)).language = Language.guess (unnumbered rows)

/-- **A numbered listing is recognised and undone**, with or without a last line feed. -/
theorem undone_listing (rows : List NumberedLine) (htwo : 2 ≤ rows.length) (closed : Bool) :
    Undone rows closed := by
  cases rows with
  | nil => simp at htwo
  | cons r rows =>
    have hshape : Shape.of (listing (r :: rows) closed) = .lineNumbered := by
      rw [Shape.of, holdsJson_listing, isPatch_listing, isListing_listing htwo]
      rfl
    have hlines := withoutNumbers_listing (List.cons_ne_nil r rows) closed
    refine ⟨hshape, hlines, ?_⟩
    rw [Inspection.language_of, if_pos hshape, hlines]

/-- A line that looks like a numbered one, and a blank one. -/
theorem undone_listing_nested :
    ∃ rows : List NumberedLine, rows.map NumberedLine.text = [" \t09→1:a".toList, "10\t".toList] ∧
      2 ≤ rows.length ∧ Undone rows true := by
  refine ⟨[⟨[' ', '\t'], ['0', '9'], '→', ['1', ':', 'a'], ?_, ?_, ?_, ?_, ?_, ?_⟩,
    ⟨[], ['1', '0'], '\t', [], ?_, ?_, ?_, ?_, ?_, ?_⟩], ?_, ?_, undone_listing _ ?_ true⟩
  all_goals simp [NumberedLine.text]

end Chronicle.Content
