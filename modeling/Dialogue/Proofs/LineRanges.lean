import Dialogue.Place
import Dialogue.Proofs.Trimming
import Mathlib.Data.String.Basic

/-!
The bytes of the lines of a source. A source is cut after each line feed, and a line is such a piece
without the carriage returns and the line feed at its end. `byteBounds_partition` says that the
lines found by `Place.byteBounds?` are those pieces, one after another from the first byte on, and
that together with the breaks between them they make up the source.
-/

set_option autoImplicit false
set_option relaxedAutoImplicit false

namespace Dialogue.Place

/-- The number of lines of a source: one for each line feed, and one for what comes after the last
of them. -/
def lineCount (source : String) : Nat :=
  source.toList.count '\n' + if source.toList.getLast?.all (· = '\n') then 0 else 1

/-- The text between two bytes of a source. -/
def between (source : String) (first last : Nat) : String :=
  String.Pos.Raw.extract source ⟨first⟩ ⟨last⟩

/-- The texts of ranges with what stands between them, and with what comes after the last. -/
def rejoined (source : String) : List (Nat × Nat) → String
  | [] => ""
  | [(first, last)] => between source first last ++ between source last source.utf8ByteSize
  | (first, last) :: (next, limit) :: rest =>
    between source first last ++ between source last next ++ rejoined source ((next, limit) :: rest)

private theorem byteSize_eq (cs : List Char) : byteSize cs = String.utf8Len cs := by
  induction cs with
  | nil => rfl
  | cons c cs ih => rw [String.utf8Len, ← ih, Nat.add_comm]; rfl

private theorem byteSize_append (cs ds : List Char) :
    byteSize (cs ++ ds) = byteSize cs + byteSize ds := by
  simp only [byteSize_eq, String.utf8Len_append]

private theorem utf8ByteSize_eq {source : String} {cs : List Char} (whole : source.toList = cs) :
    source.utf8ByteSize = byteSize cs := by
  rw [byteSize_eq, ← whole, ← String.utf8ByteSize_ofList, String.ofList_toList]

private theorem between_eq {source : String} {before middle after : List Char}
    (whole : source.toList = before ++ middle ++ after) :
    between source (byteSize before) (byteSize before + byteSize middle) =
      String.ofList middle := by
  have same : source = String.ofList (before ++ middle ++ after) := by rw [← whole,
    String.ofList_toList]
  rw [between, byteSize_eq, byteSize_eq, same]
  exact String.extract_of_valid before middle after

private theorem between_append {source : String} {before cs ds after : List Char}
    (whole : source.toList = before ++ cs ++ ds ++ after) :
    between source (byteSize (before ++ cs))
      (byteSize (before ++ cs ++ ds)) = String.ofList ds := by
  rw [byteSize_append (before ++ cs)]
  exact between_eq whole

private theorem isValid_byteSize {source : String} {before after : List Char}
    (whole : source.toList = before ++ after) :
    String.Pos.Raw.IsValid source ⟨byteSize before⟩ := by
  refine String.Pos.Raw.isValid_iff_exists_append.mpr ⟨String.ofList before,
    String.ofList after, ?_, ?_⟩
  · rw [← String.ofList_append, ← whole, String.ofList_toList]
  · rw [byteSize_eq, ← String.utf8ByteSize_ofList]
    rfl

private theorem pieces_eq_nil_iff {cs : List Char} : pieces cs = [] ↔ cs = [] := by
  cases cs with
  | nil => simp [pieces]
  | cons c rest =>
    rw [pieces]
    split
    · simp
    · split <;> simp

private theorem flatten_pieces (cs : List Char) : (pieces cs).flatten = cs := by
  induction cs with
  | nil => rfl
  | cons c rest ih =>
    rw [pieces]
    split
    · rw [List.flatten_cons, ih, List.singleton_append]
    · split
      · next none => rw [none] at ih; simp [← ih]
      · next piece others some => rw [some] at ih; simp [← ih]

/-- A character other than a line feed goes to the first piece of what follows, if there is one. -/
theorem pieces_cons_of_ne {c : Char} (other : c ≠ '\n') {rest piece : List Char}
    {others : List (List Char)}
    (h : pieces rest = piece :: others) : pieces (c :: rest) = (c :: piece) :: others := by
  rw [pieces, if_neg other, h]

private theorem length_pieces (source : String) :
    (pieces source.toList).length = lineCount source := by
  unfold lineCount
  induction source.toList with
  | nil => rfl
  | cons c rest ih =>
    cases rest with
    | nil => by_cases feed : c = '\n' <;> simp [pieces, feed]
    | cons d rest =>
      rw [List.getLast?_cons_cons]
      by_cases feed : c = '\n'
      · rw [pieces, if_pos feed, List.length_cons, ih, feed, List.count_cons_self]
        omega
      · obtain ⟨piece, others, some⟩ :=
          List.exists_cons_of_ne_nil (mt pieces_eq_nil_iff.mp (List.cons_ne_nil d rest))
        rw [pieces_cons_of_ne feed some, List.count_cons_of_ne feed, ← ih, some]
        rfl

/-- A piece is a text without line feeds and then one line feed, which only the last piece may
lack. -/
theorem exists_body {cs : List Char} {i : Nat} {piece : List Char}
    (h : (pieces cs)[i]? = some piece) :
    ∃ body, '\n' ∉ body ∧ (piece = body ++ ['\n'] ∨ piece = body ∧ i + 1 = (pieces cs).length) := by
  induction cs generalizing i piece with
  | nil => simp [pieces] at h
  | cons c rest ih =>
    by_cases feed : c = '\n'
    · rw [pieces, if_pos feed] at h ⊢
      cases i with
      | zero =>
        cases h
        exact ⟨[], List.not_mem_nil, .inl (by rw [feed]; rfl)⟩
      | succ i =>
        obtain ⟨body, plain, form⟩ := ih h
        exact ⟨body, plain, form.imp_right fun ⟨same, last⟩ =>
          ⟨same, by rw [List.length_cons, last]⟩⟩
    · cases found : pieces rest with
      | nil =>
        have alone : pieces (c :: rest) = [[c]] := by rw [pieces, if_neg feed, found]
        rw [alone] at h ⊢
        cases i with
        | zero =>
          cases h
          exact ⟨[c], by simpa using Ne.symm feed, .inr ⟨rfl, rfl⟩⟩
        | succ i => cases h
      | cons first others =>
        rw [pieces_cons_of_ne feed found] at h ⊢
        rw [found] at ih
        cases i with
        | zero =>
          cases h
          obtain ⟨body, plain, form⟩ := ih (i := 0) rfl
          refine ⟨c :: body, by simp [Ne.symm feed, plain], form.imp ?_ ?_⟩
          · rintro rfl
            rfl
          · rintro ⟨rfl, last⟩
            exact ⟨rfl, last⟩
        | succ i => exact ih (i := i + 1) h

private theorem lineText_concat (body : List Char) : lineText (body ++ ['\n']) = lineText body :=
  List.rdropWhile_concat_pos _ _ _ (by decide)

/-- Without line feeds, only carriage returns are taken off the end. -/
theorem exists_returns {body : List Char} (plain : '\n' ∉ body) :
    (∃ k, body = lineText body ++ List.replicate k '\r') ∧
    (lineText body).getLast? ≠ some '\r' := by
  obtain ⟨trail, whole, dropped, stops⟩ :=
    Text.rdropWhile_eq_iff.mp
      (rfl : body.rdropWhile (fun c => c = '\n' || c = '\r') = lineText body)
  refine ⟨⟨trail.length, ?_⟩, fun last => ?_⟩
  · have returns : trail = List.replicate trail.length '\r' := by
      refine List.eq_replicate_of_mem fun c member => ?_
      have feed : c ≠ '\n' :=
        fun same => plain (by rw [whole, ← same]; exact List.mem_append_right _ member)
      simpa [feed] using dropped c member
    rw [← returns]
    exact whole
  · simpa using stops '\r' last

/-- A line of a source with an index, its break, and what comes before and after. The break is
missing at most at the end of the source. -/
structure LineAt (source : String) (i : Nat) (before line ending after : List Char) : Prop where
  whole : source.toList = before ++ line ++ ending ++ after
  before_eq : before = ((pieces source.toList).take i).flatten
  next_eq : before ++ line ++ ending = ((pieces source.toList).take (i + 1)).flatten
  plain : '\n' ∉ line
  trimmed : line.getLast? ≠ some '\r'
  ends : ∃ k, ending = List.replicate k '\r' ++ ['\n'] ∨
    ending = List.replicate k '\r' ∧ i + 1 = lineCount source

private theorem exists_lineAt {source : String} {i : Nat} {piece : List Char}
    (h : (pieces source.toList)[i]? = some piece) :
    ∃ ending after, LineAt source i ((pieces source.toList).take i).flatten
      (lineText piece) ending after := by
  obtain ⟨body, plain, form⟩ := exists_body h
  obtain ⟨⟨k, returns⟩, trimmed⟩ := exists_returns plain
  have unfed : '\n' ∉ lineText body :=
    fun member => plain (by rw [returns]; exact List.mem_append_left _ member)
  have cut : ∃ ending, piece = lineText piece ++ ending ∧ lineText piece = lineText body ∧
      (ending = List.replicate k '\r' ++ ['\n'] ∨
        ending = List.replicate k '\r' ∧ i + 1 = lineCount source) := by
    rcases form with rfl | ⟨rfl, last⟩
    · refine ⟨_, ?_, lineText_concat body, .inl rfl⟩
      rw [lineText_concat, ← List.append_assoc, ← returns]
    · exact ⟨_, returns, rfl, .inr ⟨rfl, length_pieces source ▸ last⟩⟩
  obtain ⟨ending, split, same, ends⟩ := cut
  have next : ((pieces source.toList).take i).flatten ++ lineText piece ++ ending =
      ((pieces source.toList).take (i + 1)).flatten := by
    rw [List.append_assoc, ← split, List.take_add_one, h, List.flatten_append]
    simp
  have whole : source.toList = ((pieces source.toList).take (i + 1)).flatten ++
      ((pieces source.toList).drop (i + 1)).flatten := by
    rw [← List.flatten_append, List.take_append_drop, flatten_pieces]
  exact ⟨ending, _, next ▸ whole, rfl, next, same ▸ unfed, same ▸ trimmed, k, ends⟩

private theorem byteBounds?_succ (file source : String) (i : Nat) :
    byteBounds? ⟨file, i + 1⟩ source =
    (pieces source.toList)[i]?.map fun piece =>
      let offset := byteSize ((pieces source.toList).take i).flatten
      (offset, offset + byteSize (lineText piece)) :=
  rfl

private theorem exists_of_byteBounds? {file source : String} {n first last : Nat}
    (h : byteBounds? ⟨file, n⟩ source = some (first, last)) :
    ∃ i before line ending after, n = i + 1 ∧ LineAt source i before line ending after ∧
      first = byteSize before ∧ last = byteSize before + byteSize line := by
  cases n with
  | zero => cases h
  | succ i =>
    rw [byteBounds?_succ] at h
    obtain ⟨piece, found, same⟩ := Option.map_eq_some_iff.mp h
    obtain ⟨ending, after, line⟩ := exists_lineAt found
    cases same
    exact ⟨i, _, _, ending, after, rfl, line, rfl, rfl⟩

private theorem isSome_byteBounds?_iff {file source : String} {n : Nat} (pos : 1 ≤ n) :
    (byteBounds? ⟨file, n⟩ source).isSome ↔ n ≤ lineCount source := by
  obtain ⟨i, rfl⟩ := Nat.exists_eq_add_of_le' pos
  rw [byteBounds?_succ, Option.isSome_map, isSome_getElem?, length_pieces, Nat.lt_iff_add_one_le]

/-- The ranges of the lines of pieces that begin at an offset. -/
def spans (offset : Nat) : List (List Char) → List (Nat × Nat)
  | [] => []
  | piece :: rest =>
    (offset, offset + byteSize (lineText piece)) :: spans (offset + byteSize piece) rest

private theorem getElem?_spans (ps : List (List Char)) (offset i : Nat) : (spans offset ps)[i]? =
    ps[i]?.map fun piece =>
      let start := offset + byteSize (ps.take i).flatten
      (start, start + byteSize (lineText piece)) := by
  induction ps generalizing offset i with
  | nil => simp [spans]
  | cons piece rest ih =>
    cases i with
    | zero => rfl
    | succ i =>
      rw [spans, List.getElem?_cons_succ, ih, List.getElem?_cons_succ,
        List.take_succ_cons, List.flatten_cons, byteSize_append, Nat.add_assoc]

private theorem length_spans (ps : List (List Char)) (offset : Nat) :
    (spans offset ps).length = ps.length := by
  induction ps generalizing offset with
  | nil => rfl
  | cons piece rest ih => rw [spans, List.length_cons, ih, List.length_cons]

private theorem filterMap_getElem?_range {α : Type} (l : List α) :
    (List.range l.length).filterMap (l[·]?) = l := by
  induction l with
  | nil => rfl
  | cons a l ih =>
    rw [List.length_cons, List.range_succ_eq_map,
      List.filterMap_cons_some (by rfl), List.filterMap_map]
    exact congrArg (a :: ·) ih

private theorem ranges_eq (file source : String) :
    ((List.range (lineCount source)).filterMap fun i => byteBounds? ⟨file, i + 1⟩ source) =
      spans 0 (pieces source.toList) := by
  have bounds (i : Nat) : byteBounds? ⟨file, i + 1⟩ source =
      (spans 0 (pieces source.toList))[i]? := by
    rw [byteBounds?_succ, getElem?_spans]
    simp only [Nat.zero_add]
  simp only [bounds]
  rw [← length_pieces, ← length_spans (pieces source.toList) 0]
  exact filterMap_getElem?_range _

/-- A line and what follows it up to the next piece. -/
theorem between_piece {source : String} {before piece after : List Char}
    (whole : source.toList = before ++ piece ++ after) :
    between source (byteSize before) (byteSize before + byteSize (lineText piece)) ++
      between source (byteSize before + byteSize (lineText piece))
        (byteSize before + byteSize piece) =
      String.ofList piece := by
  obtain ⟨ending, split⟩ : lineText piece <+: piece := List.rdropWhile_prefix _ _
  have size : before ++ lineText piece ++ ending = before ++
      piece := by rw [List.append_assoc, split]
  rw [← size] at whole
  have follows := between_append whole
  rw [size, byteSize_append, byteSize_append] at follows
  rw [List.append_assoc] at whole
  rw [between_eq whole, follows, ← String.ofList_append, split]

private theorem rejoined_spans {source : String} : ∀ (ps : List (List Char)) {before : List Char},
    source.toList = before ++ ps.flatten →
    rejoined source (spans (byteSize before) ps) = String.ofList ps.flatten
  | [], _, _ => rfl
  | [piece], before, whole => by
    have all : source.toList = before ++ piece ++ [] := by rw [whole]; simp
    have size : source.utf8ByteSize = byteSize before + byteSize piece := by
      rw [utf8ByteSize_eq all, List.append_nil, byteSize_append]
    rw [spans, spans, rejoined, size, between_piece all]
    simp
  | piece :: next :: rest, before, whole => by
    have all : source.toList = before ++ piece ++ (next :: rest).flatten := by rw [whole]; simp
    have later := rejoined_spans (next :: rest) all
    rw [byteSize_append] at later
    rw [List.flatten_cons, String.ofList_append, ← later, ← between_piece all]
    rfl

namespace LineAt

variable {source : String} {i : Nat} {before line ending after : List Char}

private theorem between_line (cut : LineAt source i before line ending after) :
    between source (byteSize before) (byteSize before + byteSize line) = String.ofList line :=
  between_eq (cut.whole.trans (List.append_assoc _ _ _))

private theorem between_ending (cut : LineAt source i before line ending after) :
    between source (byteSize before + byteSize line) (byteSize (before ++ line ++ ending)) =
      String.ofList ending := by
  rw [← byteSize_append]
  exact between_append cut.whole

private theorem valid (cut : LineAt source i before line ending after) :
    String.Pos.Raw.IsValid source ⟨byteSize before⟩ ∧
      String.Pos.Raw.IsValid source ⟨byteSize before + byteSize line⟩ := by
  rw [← byteSize_append]
  have whole := cut.whole
  rw [List.append_assoc] at whole
  refine ⟨?_, isValid_byteSize whole⟩
  rw [List.append_assoc] at whole
  exact isValid_byteSize whole

/-- A line that is not the last ends with a line feed. -/
theorem ends_fed (cut : LineAt source i before line ending after)
    (more : i + 1 < lineCount source) :
    ∃ k, ending = List.replicate k '\r' ++ ['\n'] := by
  obtain ⟨k, fed | ⟨-, last⟩⟩ := cut.ends
  · exact ⟨k, fed⟩
  · omega

private theorem toList_of_last (cut : LineAt source i before line ending after)
    (last : i + 1 = lineCount source) :
    source.toList = before ++ line ++ ending := by
  rw [cut.next_eq, last, ← length_pieces, List.take_length, flatten_pieces]

/-- The next line begins where the break of this one ends. -/
theorem before_next {before' line' ending' after' : List Char}
    (cut : LineAt source i before line ending after)
    (cut' : LineAt source (i + 1) before' line' ending' after') :
    before' = before ++ line ++ ending := by
  rw [cut'.before_eq, cut.next_eq]

end LineAt

section Bounds

variable {file source : String} {n first last next limit : Nat}

private theorem sound_of_byteBounds? (found : byteBounds? ⟨file, n⟩ source = some (first, last)) :
    first ≤ last ∧ last ≤ source.utf8ByteSize ∧
      String.Pos.Raw.IsValid source ⟨first⟩ ∧ String.Pos.Raw.IsValid source ⟨last⟩ ∧
      '\n' ∉ (between source first last).toList ∧
      (between source first last).toList.getLast? ≠ some '\r' := by
  obtain ⟨i, before, line, ending, after, -, cut, rfl, rfl⟩ := exists_of_byteBounds? found
  have size := utf8ByteSize_eq cut.whole
  rw [byteSize_append, byteSize_append, byteSize_append] at size
  rw [cut.between_line, String.toList_ofList]
  exact ⟨Nat.le_add_right _ _, by omega, cut.valid.1, cut.valid.2, cut.plain, cut.trimmed⟩

/-- Between a line and the next one stands a break. -/
theorem break_of_byteBounds? (found : byteBounds? ⟨file, n⟩ source = some (first, last))
    (later : byteBounds? ⟨file, n + 1⟩ source = some (next, limit)) : last < next ∧
      ∃ k, between source last next = String.ofList (List.replicate k '\r' ++ ['\n']) := by
  obtain ⟨i, before, line, ending, after, rfl, cut, -, rfl⟩ := exists_of_byteBounds? found
  obtain ⟨j, before', _, _, _, same, cut', rfl, _⟩ := exists_of_byteBounds? later
  obtain rfl : j = i + 1 := by omega
  have more : i + 1 + 1 ≤ lineCount source :=
    (isSome_byteBounds?_iff (by omega)).mp (Option.isSome_of_eq_some later)
  obtain ⟨k, fed⟩ := cut.ends_fed more
  rw [cut.before_next cut']
  refine ⟨?_, k, by rw [cut.between_ending, fed]⟩
  have size : 0 < byteSize ending := by
    rw [fed, byteSize_append]
    exact Nat.lt_of_lt_of_le Nat.zero_lt_one (Nat.le_add_left 1 _)
  rw [byteSize_append, byteSize_append]
  omega

end Bounds

/-- Every line of a source has its range of bytes, and no other line has one. The ranges are in
order, from the first byte on, and hold neither a line feed nor a carriage return at their ends;
between two of them stand carriage returns and one line feed. Put together, they are the source. -/
theorem byteBounds_partition (file source : String) :
    (∀ n, 1 ≤ n → ((byteBounds? ⟨file, n⟩ source).isSome ↔ n ≤ lineCount source)) ∧
    (∀ n first last, byteBounds? ⟨file, n⟩ source = some (first, last) →
      first ≤ last ∧ last ≤ source.utf8ByteSize ∧
      String.Pos.Raw.IsValid source ⟨first⟩ ∧ String.Pos.Raw.IsValid source ⟨last⟩ ∧
      '\n' ∉ (between source first last).toList ∧
      (between source first last).toList.getLast? ≠ some '\r') ∧
    (∀ first last, byteBounds? ⟨file, 1⟩ source = some (first, last) → first = 0) ∧
    (∀ n first last next limit, byteBounds? ⟨file, n⟩ source = some (first, last) →
      byteBounds? ⟨file, n + 1⟩ source = some (next, limit) → last < next ∧
      ∃ k, between source last next = String.ofList (List.replicate k '\r' ++ ['\n'])) ∧
    (∀ first last, byteBounds? ⟨file, lineCount source⟩ source = some (first, last) →
      ∃ k, between source last source.utf8ByteSize = String.ofList (List.replicate k '\r') ∨
        between source last source.utf8ByteSize = String.ofList (List.replicate k '\r' ++ ['\n'])) ∧
    rejoined source ((List.range (lineCount source)).filterMap fun i =>
      byteBounds? ⟨file, i + 1⟩ source) =
      source := by
  refine ⟨fun n => isSome_byteBounds?_iff, fun n first last => sound_of_byteBounds?, ?_,
    fun n first last next limit => break_of_byteBounds?, ?_, ?_⟩
  · intro first last found
    obtain ⟨i, before, line, ending, after, same, cut, rfl, -⟩ := exists_of_byteBounds? found
    obtain rfl : i = 0 := by omega
    rw [cut.before_eq]
    rfl
  · intro first last found
    obtain ⟨i, before, line, ending, after, same, cut, -, rfl⟩ := exists_of_byteBounds? found
    rw [utf8ByteSize_eq (cut.toList_of_last same.symm), cut.between_ending]
    obtain ⟨k, rfl | ⟨rfl, -⟩⟩ := cut.ends
    · exact ⟨k, .inr rfl⟩
    · exact ⟨k, .inl rfl⟩
  · have whole : source.toList = [] ++ (pieces source.toList).flatten := by rw [flatten_pieces]; rfl
    rw [ranges_eq]
    refine (rejoined_spans _ whole).trans ?_
    rw [flatten_pieces, String.ofList_toList]

/-- Three lines, the second empty and the last without a line feed; the letters take two bytes
each. -/
theorem byteBounds_partition_sample :
    byteBounds? ⟨"scene", 1⟩ "é\r\n\nß\r" = some (0, 2) ∧
    byteBounds? ⟨"scene", 2⟩ "é\r\n\nß\r" = some (4, 4) ∧
    byteBounds? ⟨"scene", 3⟩ "é\r\n\nß\r" = some (5, 7) ∧
    (byteBounds? ⟨"scene", 3⟩ "é\r\n\nß\r").isSome ∧
    '\n' ∉ (between "é\r\n\nß\r" 5 7).toList ∧
    (∃ k, between "é\r\n\nß\r" 2 4 = String.ofList (List.replicate k '\r' ++ ['\n'])) ∧
    (∃ k, between "é\r\n\nß\r" 7 8 = String.ofList (List.replicate k '\r') ∨
      between "é\r\n\nß\r" 7 8 = String.ofList (List.replicate k '\r' ++ ['\n'])) := by
  have first : byteBounds? ⟨"scene", 1⟩ "é\r\n\nß\r" = some (0, 2) := by decide +kernel
  have second : byteBounds? ⟨"scene", 2⟩ "é\r\n\nß\r" = some (4, 4) := by decide +kernel
  have third : byteBounds? ⟨"scene", 3⟩ "é\r\n\nß\r" = some (5, 7) := by decide +kernel
  have lines : lineCount "é\r\n\nß\r" = 3 := by decide +kernel
  have bytes : ("é\r\n\nß\r" : String).utf8ByteSize = 8 := by decide +kernel
  obtain ⟨found, sound, -, gaps, tail, -⟩ := byteBounds_partition "scene" "é\r\n\nß\r"
  rw [lines, bytes] at tail
  exact ⟨first, second, third, (found 3 (by decide)).mpr lines.ge, (sound 3 5 7 third).2.2.2.2.1,
    (gaps 1 0 2 4 4 first second).2, tail 5 7 third⟩

end Dialogue.Place
