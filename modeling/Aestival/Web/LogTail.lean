import Aestival.Library.LastResults
import Aestival.Library.Pieces
import Mathlib.Data.Nat.Find

/-!
# The tail of a log file

The web backend shows the last lines of the log of the bot. `readLogTail` reads the file from its
end in chunks, decodes each chunk, and splits off the lines that are complete; what stands in front
of the first line feed is kept for the next chunk. It stops at twice as many lines as are asked for,
and only then picks the lines of a level.

The file is decoded in pieces, so a character that a chunk begins inside of is lost; a level that is
rare among the last lines is not looked for any further; and what is left at the front is a line
only by chance. `readLogTail_eq_iff` says exactly when the tail of the file is returned
nevertheless. It is not for a file of one line that begins with a blank (`first_line_untrimmed`).
-/

namespace Aestival

open Bytes

/-! ### The reader -/

/-- `chunkSize`. -/
def chunkSize : Nat := 64 * 1024

/-- What `processChunk` goes on with. -/
structure LogScan where
  position : Nat
  lines : List JsString := []
  leftover : JsString := []
  scanned : Nat := 0

/-- The body of the loop over the parts of a chunk. -/
def pushLine (part : JsString) (acc : List JsString × Nat) : List JsString × Nat :=
  let line := JsString.trim part
  if line = [] then acc else (line :: acc.1, acc.2 + 1)

/-- `processChunk`: the lines when it is done. -/
def processChunk (content : Bytes) (limit : Nat) (st : LogScan) : List JsString :=
  let readSize := min chunkSize st.position
  if readSize = 0 then
    -- the file is read: what is left over is its first line
    if st.leftover ≠ [] ∧ st.lines.length < limit * 2 then st.leftover :: st.lines else st.lines
  else
    let position := st.position - readSize
    let buf := (content.drop position).take readSize
    let chunk := decode buf ++ st.leftover
    let parts := chunk.splitOn 10
    let leftover := parts.headD []
    -- the first part may be the end of a line, and is left over
    let (lines, scanned) := parts.tail.foldr pushLine (st.lines, st.scanned)
    -- the lines are counted before the level is looked at
    if scanned ≥ limit * 2 then
      if leftover ≠ [] then leftover :: lines else lines
    else processChunk content limit { position, lines, leftover, scanned }
termination_by st.position
decreasing_by
  have hpos : readSize ≠ 0 := by assumption
  omega

/-- `slice(-limit)`. -/
def sliceLast {α : Type} (limit : Nat) (l : List α) : List α :=
  if limit = 0 then l else l.drop (l.length - limit)

/-- The test of `done`. There is none without a level. -/
def hasLevel (toUpperCase : JsString → JsString) (level line : JsString) : Bool :=
  level = [] || JsString.includes line (js "[" ++ toUpperCase level ++ js "]")

/-- What `readLogTail` resolves to. -/
structure LogTail where
  lines : List JsString
  total : Nat

/-- `readLogTail`, of a file with this content. -/
def readLogTail (toUpperCase : JsString → JsString) (content : Bytes) (level : JsString)
    (limit : Nat) : LogTail :=
  let lines := processChunk content limit { position := content.length }
  let filtered := lines.filter (hasLevel toUpperCase level)
  { lines := sliceLast limit filtered, total := filtered.length }

/-! ### What has been read -/

/-- The text behind the first line feed of another one is split off with its lines. -/
theorem splitOn_append {α : Type} [BEq α] [LawfulBEq α] (x : α) (a b : List α) :
    (a ++ b).splitOn x = (a ++ (b.splitOn x).headD []).splitOn x ++ (b.splitOn x).tail := by
  by_cases hb : x ∈ b
  · obtain ⟨u, v, rfl, hu⟩ := List.eq_append_cons_of_mem hb
    rw [List.splitOn_append_cons_self_of_not_mem hu, ← List.append_assoc,
      List.splitOn_append_cons_self]
    rfl
  · rw [List.splitOn_eq_singleton hb]
    exact (List.append_nil _).symm

/-- The lines of some texts: they are trimmed, and blank ones are left out. -/
def trimmedLines (texts : List JsString) : List JsString :=
  (texts.map JsString.trim).filter (· ≠ [])

theorem foldr_pushLine (parts : List JsString) (acc : List JsString × Nat) :
    parts.foldr pushLine acc =
      (trimmedLines parts ++ acc.1, (trimmedLines parts).length + acc.2) := by
  induction parts with
  | nil => simp [trimmedLines]
  | cons part parts ih =>
    rw [List.foldr_cons, ih, pushLine]
    by_cases hblank : part.trim = []
    · simp [trimmedLines, hblank]
    · simp [trimmedLines, hblank]
      omega

section

variable (content : Bytes)

/-- The start of the file from which `j` chunks have been read. -/
def chunkStart (j : Nat) : Nat := content.length - chunkSize * j

/-- The chunk that is read behind `j` others. -/
def readChunk (j : Nat) : Bytes :=
  (content.drop (chunkStart content (j + 1))).take (min chunkSize (chunkStart content j))

/-- The text that has been read in `j` chunks. -/
def readBack : Nat → JsString
  | 0 => []
  | j + 1 => decode (readChunk content j) ++ readBack j

/-- The lines of it that are complete. -/
def wholeLines (j : Nat) : List JsString := trimmedLines ((readBack content j).splitOn 10).tail

/-- What is left over of it. -/
def leftoverText (j : Nat) : JsString := ((readBack content j).splitOn 10).headD []

/-- The state of the reader behind `j` chunks. -/
def scanAfter (j : Nat) : LogScan where
  position := chunkStart content j
  lines := wholeLines content j
  leftover := leftoverText content j
  scanned := (wholeLines content j).length

/-- The lines that the reader has found when it stops behind `j` chunks. -/
def foundLines (j : Nat) : List JsString :=
  if leftoverText content j ≠ [] then leftoverText content j :: wholeLines content j
  else wholeLines content j

/-- The reader stops behind `j` chunks: the file is read, or there are lines enough. -/
def Stops (limit j : Nat) : Prop :=
  content.length ≤ chunkSize * j ∨ limit * 2 ≤ (wholeLines content j).length

instance (limit j : Nat) : Decidable (Stops content limit j) :=
  inferInstanceAs (Decidable (_ ∨ _))

theorem exists_stops (limit : Nat) : ∃ j, Stops content limit j := by
  refine ⟨content.length, .inl ?_⟩
  exact Nat.le_mul_of_pos_left _ (by decide)

/-- The number of chunks that are read. -/
def chunksRead (limit : Nat) : Nat := Nat.find (exists_stops content limit)

variable {content}

theorem chunkStart_succ (j : Nat) : chunkStart content (j + 1) =
    chunkStart content j - min chunkSize (chunkStart content j) := by
  rw [chunkStart, chunkStart, Nat.mul_succ]
  omega

/-- One more chunk: its complete lines come in front. -/
theorem splitOn_readBack_succ (j : Nat) : (readBack content (j + 1)).splitOn 10 =
    (decode (readChunk content j) ++ leftoverText content j).splitOn 10 ++
      ((readBack content j).splitOn 10).tail :=
  splitOn_append 10 (decode (readChunk content j)) (readBack content j)

theorem wholeLines_succ (j : Nat) : wholeLines content (j + 1) =
    trimmedLines ((decode (readChunk content j) ++ leftoverText content j).splitOn 10).tail ++
      wholeLines content j := by
  rw [wholeLines, splitOn_readBack_succ, List.tail_append_of_ne_nil (List.splitOn_ne_nil _ _),
    trimmedLines, List.map_append, List.filter_append]
  rfl

theorem leftoverText_succ (j : Nat) : leftoverText content (j + 1) =
    ((decode (readChunk content j) ++ leftoverText content j).splitOn 10).headD [] := by
  rw [leftoverText, splitOn_readBack_succ]
  cases h : (decode (readChunk content j) ++ leftoverText content j).splitOn 10 with
  | nil => exact absurd h (List.splitOn_ne_nil _ _)
  | cons part parts => rfl

/-- **A step of the reader**: unless the file is read, one more chunk. -/
theorem processChunk_scanAfter (limit : Nat) {j : Nat} (hj : chunkSize * j < content.length) :
    processChunk content limit (scanAfter content j) =
      if limit * 2 ≤ (wholeLines content (j + 1)).length then foundLines content (j + 1)
      else processChunk content limit (scanAfter content (j + 1)) := by
  have hsize : min chunkSize (scanAfter content j).position ≠ 0 := by
    have hpos : 0 < chunkSize := by decide
    change min chunkSize (content.length - chunkSize * j) ≠ 0
    omega
  have hchunk : (content.drop (chunkStart content (j + 1))).take
      (min chunkSize (chunkStart content j)) = readChunk content j := rfl
  rw [processChunk, if_neg hsize]
  simp only [scanAfter, ← chunkStart_succ, hchunk, ← leftoverText_succ, foldr_pushLine,
    ← List.length_append, ← wholeLines_succ]
  rfl

/-- At the start of the file the reader is done. -/
theorem processChunk_of_read {limit j : Nat} (hj : content.length ≤ chunkSize * j)
    (hfew : (wholeLines content j).length < limit * 2) :
    processChunk content limit (scanAfter content j) = foundLines content j := by
  have hsize : min chunkSize (scanAfter content j).position = 0 := by
    change min chunkSize (content.length - chunkSize * j) = 0
    omega
  rw [processChunk, if_pos hsize]
  simp only [scanAfter, and_iff_left hfew]
  rfl

/-- **The reader reads as many chunks as it needs.** -/
theorem processChunk_eq {limit : Nat} (hlimit : 1 ≤ limit) :
    processChunk content limit { position := content.length } =
      foundLines content (chunksRead content limit) := by
  -- by the number of chunks that are still to come
  have hrun : ∀ d j, chunksRead content limit = j + d →
      (wholeLines content j).length < limit * 2 →
      processChunk content limit (scanAfter content j) =
        foundLines content (chunksRead content limit) := by
    intro d
    induction d with
    | zero =>
      intro j hj hfew
      have hstops : Stops content limit (chunksRead content limit) := Nat.find_spec _
      rw [hj] at hstops ⊢
      exact processChunk_of_read (hstops.resolve_right (Nat.not_le.mpr hfew)) hfew
    | succ d ih =>
      intro j hj hfew
      have hnot : ¬ Stops content limit j :=
        Nat.find_min (exists_stops content limit) (show j < chunksRead content limit by omega)
      have hunread : chunkSize * j < content.length :=
        Nat.not_le.mp fun hle => hnot (.inl hle)
      rw [processChunk_scanAfter limit hunread]
      split
      · next henough =>
        -- there are lines enough, so this was the last chunk
        have hle : chunksRead content limit ≤ j + 1 :=
          Nat.find_min' (exists_stops content limit) (.inr henough)
        have heq : chunksRead content limit = j + 1 := by omega
        rw [heq]
      · next hfew' => exact ih (j + 1) (by omega) (Nat.not_le.mp hfew')
  have hnone : wholeLines content 0 = [] := by
    rw [wholeLines, readBack, List.splitOn_nil]
    rfl
  have hleft : leftoverText content 0 = [] := by
    rw [leftoverText, readBack, List.splitOn_nil]
    rfl
  have hstart : scanAfter content 0 = { position := content.length } := by
    rw [scanAfter, hnone, hleft]
    rfl
  rw [← hstart]
  refine hrun (chunksRead content limit) 0 (Nat.zero_add _).symm ?_
  rw [hnone]
  exact Nat.mul_pos hlimit Nat.two_pos

theorem length_readChunk_le (j : Nat) : (readChunk content j).length ≤ chunkSize :=
  (List.length_take_le _ _).trans (Nat.min_le_left _ _)

/-- A chunk and what has been read before it is the end of the file. -/
theorem drop_chunkStart_succ (j : Nat) : content.drop (chunkStart content (j + 1)) =
    readChunk content j ++ content.drop (chunkStart content j) := by
  have hstart : chunkStart content j =
      chunkStart content (j + 1) + min chunkSize (chunkStart content j) := by
    rw [chunkStart_succ]
    omega
  conv_lhs => rw [← List.take_append_drop (min chunkSize (chunkStart content j))
    (content.drop (chunkStart content (j + 1)))]
  rw [List.drop_drop, ← hstart, readChunk]

/-- **The end of the file is read in pieces.** -/
theorem readBack_eq (j : Nat) :
    readBack content j = decodePieces chunkSize (content.drop (chunkStart content j)) 0 := by
  induction j with
  | zero =>
    have hnil : content.drop (chunkStart content 0) = [] := List.drop_length
    rw [hnil]
    rfl
  | succ j ih =>
    rw [drop_chunkStart_succ, readBack, ih]
    by_cases hread : chunkStart content j = 0
    -- behind the start of the file nothing is read
    · have hnil : readChunk content j = [] := by
        rw [readChunk, hread, Nat.min_zero, List.take_zero]
      rw [hnil]
      rfl
    · refine (decodePieces_chunk _ (length_readChunk_le j) ?_).symm
      rw [List.length_drop, chunkStart]
      rw [chunkStart] at hread
      exact ⟨j, by omega⟩

end

/-! ### Lines of the file -/

/-- Of a list of lines, the last ones are located as by themselves. -/
theorem located_append (front rest : List Bytes) :
    ∃ lines, located (front ++ rest) = lines ++ located rest := by
  induction front with
  | nil => exact ⟨[], rfl⟩
  | cons u front ih =>
    obtain ⟨lines, hlines⟩ := ih
    refine ⟨⟨u, ((front ++ rest).map fun v => v.length + 1).sum⟩ :: lines, ?_⟩
    rw [List.cons_append, located, hlines]
    rfl

theorem map_octets_located (lines : List Bytes) : (located lines).map FileLine.octets = lines := by
  induction lines with
  | nil => rfl
  | cons u lines ih => rw [located, List.map_cons, ih]

/-- The lines of a text are texts. -/
theorem validUtf8_of_mem_splitOn {s : Bytes} (h : validUtf8 s = true) :
    ∀ u ∈ s.splitOn 10, validUtf8 u = true := by
  induction s using lines_induction with
  | last u hu =>
    rw [List.splitOn_eq_singleton hu]
    exact List.forall_mem_singleton.mpr h
  | line u v hu ih =>
    obtain ⟨hvalid, hfeed⟩ := validUtf8_of_append_ascii h (by decide)
    rw [List.append_cons, validUtf8_append hfeed] at h
    rw [List.splitOn_append_cons_self_of_not_mem hu]
    exact List.forall_mem_cons.mpr ⟨hvalid, ih h⟩

section

variable (content : Bytes) (limit : Nat)

/-- The lines of the file. -/
def fileLines : List FileLine := located (content.splitOn 10)

/-- The part of the file that is read: the last chunks, as many as it takes. -/
def partRead : Bytes := content.drop (chunkStart content (chunksRead content limit))

/-- The lines behind the first line feed of the part. -/
def nearLines : List FileLine := (located ((partRead content limit).splitOn 10)).tail

/-- The other lines of the file. The last of them ends in the part. -/
def farLines : List FileLine :=
  (fileLines content).take ((fileLines content).length - (nearLines content limit).length)

/-- A line as it is in the file, and as it is read. -/
def lineText (l : FileLine) : JsString := decode l.octets

def lineRead (l : FileLine) : JsString := decodePieces chunkSize l.octets l.behind

/-- What is read in front of the first line feed of the part. -/
def frontRead : JsString :=
  ((located ((partRead content limit).splitOn 10)).map lineRead).headD []

theorem fileLines_eq :
    fileLines content = farLines content limit ++ nearLines content limit := by
  have hsplit := splitOn_append 10 (content.take (chunkStart content (chunksRead content limit)))
    (partRead content limit)
  rw [partRead, List.take_append_drop] at hsplit
  obtain ⟨lines, hlines⟩ := located_append
    ((content.take (chunkStart content (chunksRead content limit)) ++
      ((content.drop (chunkStart content (chunksRead content limit))).splitOn 10).headD []).splitOn
        10)
    ((content.drop (chunkStart content (chunksRead content limit))).splitOn 10).tail
  -- the lines behind the first line feed are the same for the part and for the file
  have hnear : nearLines content limit =
      located ((content.drop (chunkStart content (chunksRead content limit))).splitOn 10).tail := by
    rw [nearLines, partRead]
    cases (content.drop (chunkStart content (chunksRead content limit))).splitOn 10 <;> rfl
  have hall : fileLines content = lines ++ nearLines content limit := by
    rw [fileLines, hsplit, hlines, hnear]
  rw [farLines, hall, List.length_append, Nat.add_sub_cancel, List.take_left]

variable {content limit}

theorem wholeLines_chunksRead : wholeLines content (chunksRead content limit) =
    trimmedLines ((nearLines content limit).map lineRead) := by
  rw [wholeLines, readBack_eq, splitOn_decodePieces, nearLines, List.map_tail]
  rfl

theorem leftoverText_chunksRead :
    leftoverText content (chunksRead content limit) = frontRead content limit := by
  rw [leftoverText, readBack_eq, splitOn_decodePieces]
  rfl

end

/-! ### What should be returned -/

section

variable (toUpperCase : JsString → JsString) (content : Bytes) (level : JsString) (limit : Nat)

/-- The lines of the file that have the level: trimmed, and not blank. -/
def matchingLines : List JsString :=
  (trimmedLines ((decode content).splitOn 10)).filter (hasLevel toUpperCase level)

/-- The tail of the file. -/
def trueTail : List JsString := sliceLast limit (matchingLines toUpperCase content level)

/-- What a text adds to the lines. -/
def entry (text : JsString) : Option JsString :=
  if text.trim ≠ [] ∧ hasLevel toUpperCase level text.trim = true then some text.trim else none

/-- What a line of the file should add, and what it adds. -/
def entryText (l : FileLine) : Option JsString := entry toUpperCase level (lineText l)

def entryRead (l : FileLine) : Option JsString := entry toUpperCase level (lineRead l)

/-- What is in front of the first line feed, if it is taken for a line. It is not trimmed. -/
def frontLines : List JsString :=
  if frontRead content limit ≠ [] ∧ hasLevel toUpperCase level (frontRead content limit) = true then
    [frontRead content limit]
  else []

/-- The matching lines that are not read as a whole. -/
def farMatches : List JsString :=
  (farLines content limit).filterMap (entryText toUpperCase level)

/-- The matching lines of which all has been read. -/
def nearMatches : List JsString :=
  (nearLines content limit).filterMap (entryText toUpperCase level)

variable {toUpperCase content level limit}

theorem filter_trimmedLines (texts : List JsString) :
    (trimmedLines texts).filter (hasLevel toUpperCase level) =
      texts.filterMap (entry toUpperCase level) := by
  induction texts with
  | nil => rfl
  | cons text texts ih =>
    -- lines that are blank when trimmed are left out
    have hrest : trimmedLines (text :: texts) =
        if text.trim ≠ [] then text.trim :: trimmedLines texts else trimmedLines texts := by
      rw [trimmedLines, List.map_cons, List.filter_cons]
      by_cases hblank : text.trim = [] <;> simp [hblank, trimmedLines]
    rw [hrest]
    by_cases hblank : text.trim = []
    · rw [if_neg (not_not.mpr hblank), List.filterMap_cons_none, ih]
      exact if_neg fun h => h.1 hblank
    · rw [if_pos hblank, List.filter_cons]
      -- the level is looked for in the trimmed line
      cases hlevel : hasLevel toUpperCase level text.trim with
      | true =>
        rw [if_pos rfl, ih, List.filterMap_cons_some]
        exact if_pos ⟨hblank, hlevel⟩
      | false =>
        rw [if_neg Bool.false_ne_true, ih, List.filterMap_cons_none]
        refine if_neg fun h => ?_
        rw [hlevel] at h
        exact Bool.false_ne_true h.2

theorem matchingLines_eq (limit : Nat) : matchingLines toUpperCase content level =
    farMatches toUpperCase content level limit ++ nearMatches toUpperCase content level limit := by
  have htexts : (decode content).splitOn 10 = (fileLines content).map lineText := by
    rw [splitOn_decode, fileLines]
    conv_lhs => rw [← map_octets_located (content.splitOn 10), List.map_map]
    rfl
  rw [matchingLines, filter_trimmedLines, htexts, List.filterMap_map, fileLines_eq content limit,
    List.filterMap_append]
  rfl

/-- **What is returned.** -/
theorem readLogTail_lines (hlimit : 1 ≤ limit) :
    (readLogTail toUpperCase content level limit).lines =
      sliceLast limit (frontLines toUpperCase content level limit ++
        (nearLines content limit).filterMap (entryRead toUpperCase level)) := by
  have hfound : (foundLines content (chunksRead content limit)).filter
      (hasLevel toUpperCase level) = frontLines toUpperCase content level limit ++
        (nearLines content limit).filterMap (entryRead toUpperCase level) := by
    -- the lines behind the first line feed, then what is in front of it
    have hnear : (wholeLines content (chunksRead content limit)).filter
        (hasLevel toUpperCase level) =
        (nearLines content limit).filterMap (entryRead toUpperCase level) := by
      rw [wholeLines_chunksRead, filter_trimmedLines, List.filterMap_map]
      rfl
    rw [foundLines, leftoverText_chunksRead, frontLines]
    by_cases hnil : frontRead content limit = []
    · rw [if_neg (not_not.mpr hnil), if_neg fun h => h.1 hnil, hnear]
      rfl
    · rw [if_pos hnil, List.filter_cons, hnear]
      simp only [hnil, ne_eq, not_false_eq_true, true_and]
      split <;> rfl
  rw [readLogTail, processChunk_eq hlimit, hfound]

variable (toUpperCase content level limit)

/-- A line is read as it is, as far as it matters: no character of it is cut, or it has not got the
level, neither as it is nor as it is read. -/
def ReadWell (l : FileLine) : Prop :=
  Cut chunkSize l → entryText toUpperCase level l = none ∧ entryRead toUpperCase level l = none

/-- What is in front of the first line feed is no line, and there are no other lines; or it is the
last of the other lines, and the only one or the only one that is asked for. -/
def FrontFits : Prop :=
  if frontRead content limit ≠ [] ∧ hasLevel toUpperCase level (frontRead content limit) = true then
    (farMatches toUpperCase content level limit).getLast? = some (frontRead content limit) ∧
      (limit = (nearMatches toUpperCase content level limit).length + 1 ∨
        (farMatches toUpperCase content level limit).length = 1)
  else farMatches toUpperCase content level limit = []

/-- The tail is read as it is: the lines that matter are read well, and there are enough of them or
what is in front fits. Or else, where a cut has made a line match or not match, the lines in front
of it make up for that by chance. -/
def TailRead : Prop :=
  ((∀ front l behind, nearLines content limit = front ++ l :: behind →
      (behind.filterMap (entryText toUpperCase level)).length < limit →
        ReadWell toUpperCase level l) ∧
    (limit ≤ (nearMatches toUpperCase content level limit).length ∨
      FrontFits toUpperCase content level limit)) ∨
  MadeUp (entryText toUpperCase level) (entryRead toUpperCase level)
    (farMatches toUpperCase content level limit) (frontLines toUpperCase content level limit) limit
    (nearLines content limit)

variable {toUpperCase content level limit}

/-- Trimming leaves replacement characters alone. -/
theorem count_trim (s : JsString) : s.trim.count replacement = s.count replacement := by
  -- blanks are no replacement characters
  have hdrop : ∀ t : JsString,
      (t.dropWhile JsString.isSpace).count replacement = t.count replacement := by
    intro t
    have hzero : (t.takeWhile JsString.isSpace).count replacement = 0 := by
      refine List.count_eq_zero_of_not_mem fun hmem => ?_
      exact absurd (List.mem_takeWhile_imp hmem) (by decide)
    conv_rhs => rw [← List.takeWhile_append_dropWhile (p := JsString.isSpace) (l := t)]
    rw [List.count_append, hzero, Nat.zero_add]
  calc s.trim.count replacement
      = ((s.dropWhile JsString.isSpace).reverse.dropWhile JsString.isSpace).count replacement :=
        List.count_reverse
    _ = (s.dropWhile JsString.isSpace).reverse.count replacement := hdrop _
    _ = (s.dropWhile JsString.isSpace).count replacement := List.count_reverse
    _ = s.count replacement := hdrop s

/-- **A line is read well exactly if it adds what it should.** -/
theorem entryText_eq_iff {l : FileLine} (hl : validUtf8 l.octets = true) :
    entryText toUpperCase level l = entryRead toUpperCase level l ↔
      ReadWell toUpperCase level l := by
  constructor
  · intro heq hcut
    have hlt := count_lt_of_cut (by decide) hl hcut
    -- trimming keeps the replacement characters, and the line as read has more of them
    have htrim : (lineText l).trim ≠ (lineRead l).trim := by
      intro h
      have hcount := congrArg (List.count replacement) h
      rw [count_trim, count_trim] at hcount
      exact absurd hcount (Nat.ne_of_lt hlt)
    have hnone : entryText toUpperCase level l = none := by
      rw [entryText, entryRead, entry, entry] at heq
      rw [entryText, entry]
      split at heq
      · split at heq
        · exact absurd (Option.some.inj heq) htrim
        · exact nomatch heq
      · next hnot => exact if_neg hnot
    exact ⟨hnone, heq ▸ hnone⟩
  · intro h
    by_cases hcut : Cut chunkSize l
    · rw [(h hcut).1, (h hcut).2]
    · rw [entryText, entryRead, lineText, lineRead, decodePieces_of_not_cut hl hcut]

/-- The lines of the file that have been read are texts. -/
theorem validUtf8_of_mem_nearLines (hcontent : validUtf8 content = true) :
    ∀ l ∈ nearLines content limit, validUtf8 l.octets = true := by
  intro l hl
  have hall : l ∈ fileLines content := by
    rw [fileLines_eq content limit]
    exact List.mem_append_right _ hl
  have hoctets := List.mem_map_of_mem (f := FileLine.octets) hall
  rw [fileLines, map_octets_located] at hoctets
  exact validUtf8_of_mem_splitOn hcontent _ hoctets

/-- What is in front fits exactly if it adds what the other lines should add. -/
theorem frontFits_iff {k : Nat} (hk : 0 < k)
    (hlimit : limit = (nearMatches toUpperCase content level limit).length + k) :
    (farMatches toUpperCase content level limit).rtake k =
        (frontLines toUpperCase content level limit).rtake k ↔
      FrontFits toUpperCase content level limit := by
  obtain ⟨k, rfl⟩ := Nat.exists_eq_succ_of_ne_zero (Nat.ne_of_gt hk)
  rw [FrontFits, frontLines]
  -- the front line is one entry at most
  split
  · have hone : [frontRead content limit].rtake (k + 1) = [frontRead content limit] := by
      rw [rtake_eq_singleton_iff hk]
      exact ⟨rfl, .inr rfl⟩
    rw [Nat.succ_eq_add_one, hone, rtake_eq_singleton_iff hk]
    refine and_congr_right fun _ => or_congr_left ?_
    omega
  · rw [List.rtake_nil, rtake_eq_nil_iff]
    exact or_iff_right (Nat.succ_ne_zero k)

/-- **The true tail of the file is returned if and only if it is read as it is.** -/
theorem readLogTail_eq_iff (toUpperCase : JsString → JsString) (content : Bytes) (level : JsString)
    (limit : Nat) (hcontent : validUtf8 content = true) (hlimit : 1 ≤ limit) :
    (readLogTail toUpperCase content level limit).lines =
        trueTail toUpperCase content level limit ↔
      TailRead toUpperCase content level limit := by
  have hslice : ∀ l : List JsString, sliceLast limit l = l.rtake limit :=
    fun l => if_neg (Nat.ne_of_gt hlimit)
  -- the lines that fewer than `limit` matching ones come behind
  have hagree : AgreeAtEnd (entryText toUpperCase level) (entryRead toUpperCase level) limit
      (nearLines content limit) ↔
      ∀ front l behind, nearLines content limit = front ++ l :: behind →
        (behind.filterMap (entryText toUpperCase level)).length < limit →
          ReadWell toUpperCase level l := by
    refine forall_congr' fun front => forall_congr' fun l => forall_congr' fun behind =>
      forall_congr' fun heq => imp_congr_right fun _ => entryText_eq_iff ?_
    have hl : l ∈ nearLines content limit := by
      rw [heq]
      exact List.mem_append_right front List.mem_cons_self
    exact validUtf8_of_mem_nearLines hcontent l hl
  -- what comes before them
  have hfront : (limit ≤ (nearMatches toUpperCase content level limit).length ∨
      (farMatches toUpperCase content level limit).rtake
          (limit - (nearMatches toUpperCase content level limit).length) =
        (frontLines toUpperCase content level limit).rtake
          (limit - (nearMatches toUpperCase content level limit).length)) ↔
      (limit ≤ (nearMatches toUpperCase content level limit).length ∨
        FrontFits toUpperCase content level limit) := by
    by_cases hle : limit ≤ (nearMatches toUpperCase content level limit).length
    · exact iff_of_true (.inl hle) (.inl hle)
    · rw [or_iff_right hle, or_iff_right hle]
      exact frontFits_iff (by omega) (by omega)
  rw [readLogTail_lines hlimit, trueTail, matchingLines_eq limit, hslice, hslice,
    nearMatches, eq_comm, rtake_filterMap_eq_iff, hagree]
  exact or_congr_left (and_congr_right fun _ => hfront)

/-- A short file is read in one chunk. -/
theorem chunksRead_eq_one (hlimit : 1 ≤ limit) (hne : content ≠ [])
    (hshort : content.length ≤ chunkSize) : chunksRead content limit = 1 := by
  have hpos := List.length_pos_of_ne_nil hne
  refine (Nat.find_eq_iff (exists_stops content limit)).mpr ⟨.inl (by omega), fun j hj => ?_⟩
  obtain rfl : j = 0 := Nat.lt_one_iff.mp hj
  rintro (hread | henough)
  · omega
  · rw [wholeLines, readBack, List.splitOn_nil] at henough
    exact absurd henough (by simp [trimmedLines]; omega)

theorem partRead_of_short (hlimit : 1 ≤ limit) (hne : content ≠ [])
    (hshort : content.length ≤ chunkSize) : partRead content limit = content := by
  rw [partRead, chunksRead_eq_one hlimit hne hshort, chunkStart, Nat.mul_one,
    Nat.sub_eq_zero_of_le hshort, List.drop_zero]

theorem readLogTail_two_lines :
    (readLogTail id (utf8 "a\nb") [] 1).lines = trueTail id (utf8 "a\nb") [] 1 := by
  -- the file fits into the part that is read
  have hpart : partRead (utf8 "a\nb") 1 = utf8 "a\nb" :=
    partRead_of_short (Nat.le_refl 1) (by decide) (by decide)
  have hnear : nearLines (utf8 "a\nb") 1 = [⟨utf8 "b", 0⟩] := by
    rw [nearLines, hpart]
    decide
  refine (readLogTail_eq_iff id (utf8 "a\nb") [] 1 (by decide) (Nat.le_refl 1)).mpr
    (.inl ⟨fun front l behind heq _ => ?_, .inl ?_⟩)
  -- no character is cut
  · rintro ⟨p, t, hoctets, -, hnot⟩
    rw [hnear] at heq
    have hl : l ∈ [(⟨utf8 "b", 0⟩ : FileLine)] :=
      heq ▸ List.mem_append_right front List.mem_cons_self
    rw [List.mem_singleton.mp hl] at hoctets
    rcases List.append_eq_singleton_iff.mp hoctets.symm with ⟨rfl, -⟩ | ⟨rfl, -⟩
    · exact absurd rfl hnot
    · exact absurd rfl hnot
  · rw [nearMatches, hnear]
    decide

/-- **The first line of a file is returned with the blanks around it.** -/
theorem first_line_untrimmed :
    ¬ ∀ (toUpperCase : JsString → JsString) (content : Bytes) (level : JsString) (limit : Nat),
      validUtf8 content = true → 1 ≤ limit →
        (readLogTail toUpperCase content level limit).lines =
          trueTail toUpperCase content level limit := by
  intro hall
  have heq := hall id (utf8 " a") [] 1 (by decide) (Nat.le_refl 1)
  have hpart : partRead (utf8 " a") 1 = utf8 " a" :=
    partRead_of_short (Nat.le_refl 1) (by decide) (by decide)
  rw [readLogTail_lines (Nat.le_refl 1), frontLines, frontRead, nearLines, hpart] at heq
  exact absurd heq (by decide)

end

end Aestival
