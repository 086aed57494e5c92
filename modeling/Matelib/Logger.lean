import Matelib.LogStream

/-!
# Log records

A logger writes the time, the thread and the level into its stream, takes what the user inserts, and
hands the record over when it is destroyed, after `finish` has written the file, the line and a
newline. Each of these pieces is dropped on its own when it does not fit, so the exact condition for
a complete record is about the room that is left, but for records that end by chance as a complete
one does.
-/

namespace Matelib.Logger

open LogStream

inductive LogLevel where
  | DEBUG
  | INFO
  | WARN
  | ERROR
  | NONLOG
  deriving DecidableEq

/-- The table of names has no entry for the last level. -/
def LogLevelName : LogLevel → Option Bytes
  | .DEBUG => some (ascii "DEBUG  ")
  | .INFO => some (ascii " INFO  ")
  | .WARN => some (ascii " WARN  ")
  | .ERROR => some (ascii "ERROR  ")
  | .NONLOG => none

/-- What the thread knows: the formatted seconds in `t_time`, the microseconds, and the text of its
identity. The two texts are in arrays of 32 bytes. -/
structure Thread where
  time : Bytes
  usec : ℕ
  tidString : Bytes
  length_time : time.length < 32
  length_tid : tidString.length < 32

/-- The record goes to `AsyncLogging::append` or to the output function. -/
inductive Output where
  | append (data : Bytes)
  | output (msg : Bytes)

def Output.message : Output → Bytes
  | .append data => data
  | .output msg => msg

def slash : UInt8 := 47
def newline : UInt8 := 10

def afterSlash (file : Bytes) : Bytes := ((cstr file).reverse.takeWhile (· ≠ slash)).reverse

/-- `".%06d "` in an array of sixteen bytes. -/
def usecText (usec : ℕ) : Bytes :=
  snprintf 16 (ascii "." ++ List.replicate (6 - (decimal usec).length) 48 ++ decimal usec ++
    ascii " ")

/-- Any number of insertions. -/
def insertAll (b : LogStream.Buffer kSmallBuffer) (values : List LogStream.Value) :
    Option (LogStream.Buffer kSmallBuffer) :=
  values.foldlM LogStream.insert b

end Logger

structure Logger where
  stream : LogStream.Buffer LogStream.kSmallBuffer
  line : Int32
  basename : Bytes
  isAsync : Bool

namespace Logger

open LogStream

def new (b : LogStream.Buffer kSmallBuffer) (thread : Thread) (file : Bytes) (line : Int32)
    (level : LogLevel) (isAsync : Bool) : Option Logger :=
  (LogLevelName level).bind fun name =>
    (insertAll b [.chars (some thread.time), .chars (some (usecText thread.usec)),
      .chars (some thread.tidString), .chars (some name)]).map fun stream =>
        ⟨stream, line, afterSlash file, isAsync⟩

def insert (l : Logger) (values : List LogStream.Value) : Option Logger :=
  (insertAll l.stream values).map fun stream => { l with stream := stream }

def finish (l : Logger) : Option Logger :=
  l.insert [.chars (some (ascii " - ")), .string l.basename, .char colon, .int l.line,
    .char newline]

def destroy (l : Logger) : Option Output :=
  l.finish.map fun l =>
    if l.isAsync then .append l.stream.contents.data else .output l.stream.contents.data

def name (base : Bytes) : Bytes := ascii " - " ++ base

def tail (base line : Bytes) : Bytes := name base ++ ([colon] ++ line ++ [newline])

/-- A text is appended when it is shorter than what is available of `n` bytes. -/
def appendText (n : ℕ) (c str : Bytes) : Bytes := if str.length < n - c.length then c ++ str else c

/-- A short number is appended when 32 bytes are available. -/
def appendLine (n : ℕ) (c line : Bytes) : Bytes := if 32 ≤ n - c.length then c ++ line else c

/-- What `finish` writes after the name of the file. -/
def finishLine (n : ℕ) (c line : Bytes) : Bytes :=
  appendText n (appendLine n (appendText n c [colon]) line) [newline]

variable {n : ℕ} {c base line : Bytes}

theorem appendText_fits {str : Bytes} (h : c.length + str.length < n) :
    appendText n c str = c ++ str :=
  if_pos (by omega)

theorem appendText_drops {str : Bytes} (h : n ≤ c.length + str.length) :
    appendText n c str = c :=
  if_neg (by omega)

theorem finishLine_fits (hline : line.length ≤ 11) (h : c.length + 33 ≤ n) :
    finishLine n c line = c ++ ([colon] ++ line ++ [newline]) := by
  have hcolon : (c ++ [colon]).length = c.length + 1 := List.length_append
  have hall : (c ++ [colon] ++ line).length = c.length + 1 + line.length := by
    rw [List.length_append, hcolon]
  have hone : ∀ b : UInt8, [b].length = 1 := fun _ => rfl
  have hfirst : appendText n c [colon] = c ++ [colon] :=
    appendText_fits (by rw [hone]; omega)
  have hnumber : appendLine n (c ++ [colon]) line = c ++ [colon] ++ line := if_pos (by omega)
  have hlast : appendText n (c ++ [colon] ++ line) [newline] = c ++ [colon] ++ line ++ [newline] :=
    appendText_fits (by rw [hall, hone]; omega)
  rw [finishLine, hfirst, hnumber, hlast]
  simp only [List.append_assoc]

theorem finishLine_short (hc : c.length < n) (h : n < c.length + 33) :
    finishLine n c line =
      c ++ if n = c.length + 1 then [] else if n = c.length + 2 then [colon]
        else [colon, newline] := by
  have hcolon : (c ++ [colon]).length = c.length + 1 := List.length_append
  have hone : ∀ b : UInt8, [b].length = 1 := fun _ => rfl
  have hnumber : ∀ d : Bytes, n < d.length + 32 → appendLine n d line = d :=
    fun d hd => if_neg (by omega)
  rw [finishLine]
  split_ifs with hfull hlast
  · have hfirst : appendText n c [colon] = c := appendText_drops (by rw [hone]; omega)
    have hnewline : appendText n c [newline] = c := appendText_drops (by rw [hone]; omega)
    rw [hfirst, hnumber c (by omega), hnewline, List.append_nil]
  · have hfirst : appendText n c [colon] = c ++ [colon] := appendText_fits (by rw [hone]; omega)
    have hnewline : appendText n (c ++ [colon]) [newline] = c ++ [colon] :=
      appendText_drops (by rw [hcolon, hone]; omega)
    rw [hfirst, hnumber _ (by omega), hnewline]
  · have hfirst : appendText n c [colon] = c ++ [colon] := appendText_fits (by rw [hone]; omega)
    have hnewline : appendText n (c ++ [colon]) [newline] = c ++ [colon] ++ [newline] :=
      appendText_fits (by rw [hcolon, hone]; omega)
    rw [hfirst, hnumber _ (by omega), hnewline, List.append_assoc]
    rfl

theorem tail_eq (base line : Bytes) :
    tail base line = name base ++ [colon] ++ line ++ [newline] := by
  simp only [tail, List.append_assoc]

/-- A record that ends with a colon, or with a colon and a newline, has no number at its end. -/
theorem not_tail_suffix_short (hdigit : line.getLast? ≠ some colon) (hline : line ≠ [])
    (base c : Bytes) :
    ¬tail base line <:+ c ++ [colon] ∧ ¬tail base line <:+ c ++ [colon, newline] := by
  rw [tail_eq]
  constructor
  · intro h
    obtain ⟨-, hlast⟩ := (List.suffix_append_inj_of_length_eq (by simp)).mp h
    exact absurd hlast (by decide)
  · rw [show c ++ [colon, newline] = c ++ [colon] ++ [newline] by simp,
      List.suffix_append_self_iff]
    obtain ⟨digits, d, rfl⟩ := List.eq_nil_or_concat' line |>.resolve_left hline
    rw [← List.append_assoc]
    intro h
    obtain ⟨-, hlast⟩ := (List.suffix_append_inj_of_length_eq (by simp)).mp h
    rw [List.getLast?_concat, List.singleton_inj.mp hlast] at hdigit
    exact hdigit rfl

/-- When the pieces behind the name are written, the record ends as a complete one exactly when it
ends with the name before them; when none fits, exactly when it does already. -/
theorem tail_suffix_finishLine_iff (hline : line.length ≤ 11) (hnil : line ≠ [])
    (hdigit : line.getLast? ≠ some colon) (hc : c.length < n) :
    tail base line <:+ finishLine n c line ↔
      (c.length + 33 ≤ n ∧ name base <:+ c) ∨ (n = c.length + 1 ∧ tail base line <:+ c) := by
  rcases le_or_gt (c.length + 33) n with hfits | hshort
  · rw [finishLine_fits hline hfits, tail, List.suffix_append_self_iff, and_iff_right hfits,
      or_iff_left]
    omega
  · rw [finishLine_short hc hshort, or_iff_right (fun h => by omega)]
    obtain ⟨hcolon, hnewline⟩ := not_tail_suffix_short hdigit hnil base c
    split_ifs with hfull hlast
    · rw [List.append_nil, and_iff_right hfull]
    · exact iff_of_false hcolon fun h => hfull h.1
    · exact iff_of_false hnewline fun h => hfull h.1

/-- A complete record does not end with the name: its name would begin with a part of what comes
after it, which has no blank. -/
theorem not_tail_suffix_name (hline : (32 : UInt8) ∉ line) (base c : Bytes) :
    ¬tail base line <:+ c ++ name base := by
  intro h
  have hlength : (name base).length ≤ (tail base line).length := by
    rw [tail, List.length_append]
    omega
  obtain ⟨front, hfront⟩ :=
    List.suffix_of_suffix_length_le (List.suffix_append c (name base)) h hlength
  have hlen := congrArg List.length hfront
  have hcount := congrArg (List.count 32) hfront
  rw [tail, List.length_append, List.length_append, List.length_append, List.length_append,
    List.length_singleton, List.length_singleton] at hlen
  have hrest : ([colon] ++ line ++ [newline]).count 32 = 0 := by
    rw [List.count_eq_zero]
    simp only [List.mem_append, List.mem_singleton, not_or]
    exact ⟨⟨by decide, hline⟩, by decide⟩
  rw [tail, List.count_append, List.count_append, hrest] at hcount
  -- what is before the name begins as the name does, with a blank
  have hhead : front.head? = some 32 := by
    have hne : front ≠ [] := by
      rintro rfl
      simp at hlen
    have happend : (front ++ name base).head? = front.head? :=
      List.head?_append_of_ne_nil front hne
    rw [← happend, hfront]
    rfl
  have hmem : (32 : UInt8) ∈ front := List.mem_of_mem_head? hhead
  have hpos : 0 < front.count 32 := List.count_pos_iff.mpr hmem
  omega

theorem not_tail_suffix_dash (base line c : Bytes) : ¬tail base line <:+ c ++ ascii " - " := by
  have hdash : c ++ ascii " - " = c ++ ascii " -" ++ [32] := by
    rw [List.append_assoc]
    rfl
  rw [tail_eq, hdash]
  intro h
  obtain ⟨-, hlast⟩ := (List.suffix_append_inj_of_length_eq (by simp)).mp h
  exact absurd hlast (by decide)

theorem tail_suffix_named_iff (hline : line.length ≤ 11) (hnil : line ≠ [])
    (hdigit : line.getLast? ≠ some colon) (hc : c.length < n) :
    tail base line <:+ finishLine n (appendText n c base) line ↔
      if c.length + base.length < n then
        (c.length + base.length + 33 ≤ n ∧ name base <:+ c ++ base) ∨
          (n = c.length + base.length + 1 ∧ tail base line <:+ c ++ base)
      else (c.length + 33 ≤ n ∧ name base <:+ c) ∨ (n = c.length + 1 ∧ tail base line <:+ c) := by
  have hlength : (c ++ base).length = c.length + base.length := List.length_append
  split_ifs with hbase
  · rw [appendText_fits hbase, tail_suffix_finishLine_iff hline hnil hdigit (by omega), hlength]
  · rw [appendText_drops (by omega), tail_suffix_finishLine_iff hline hnil hdigit hc]

/-- What `finish` makes of the text of a record, in a buffer of `n` bytes. -/
def finishText (n : ℕ) (c base line : Bytes) : Bytes :=
  finishLine n (appendText n (appendText n c (ascii " - ")) base) line

/-- The file and the line have room behind the text of a record. If not, then the name of the file
was dropped and the text ends so that, with the blank dash, it looks written; or the text, with a
name that fills the buffer or without it, leaves one byte and ends as a complete record. -/
def Completes (n : ℕ) (c base line : Bytes) : Prop :=
  c.length + base.length + 36 ≤ n ∨
  (c.length + 36 ≤ n ∧ n ≤ c.length + base.length + 3 ∧ name base <:+ c ++ ascii " - ") ∨
  (n ≤ c.length + 3 ∧ n = c.length + base.length + 1 ∧ tail base line <:+ c ++ base) ∨
  (n = c.length + 1 ∧ tail base line <:+ c)

theorem tail_suffix_finishText_iff (hlength : line.length ≤ 11) (hnil : line ≠ [])
    (hdigit : line.getLast? ≠ some colon) (hblank : (32 : UInt8) ∉ line) (hc : c.length < n) :
    tail base line <:+ finishText n c base line ↔ Completes n c base line := by
  have hdashed : (c ++ ascii " - ").length = c.length + 3 := List.length_append
  have hnamed : c ++ ascii " - " ++ base = c ++ name base := List.append_assoc ..
  rw [finishText, Completes]
  by_cases hfits : c.length + 3 < n
  · rw [appendText_fits (c := c) hfits, tail_suffix_named_iff hlength hnil hdigit (by omega),
      hdashed, hnamed]
    split_ifs with hbase
    · -- the file is written, and what follows is a complete record or not one
      have hsuffix : name base <:+ c ++ name base := List.suffix_append _ _
      have hnot := not_tail_suffix_name hblank base c
      constructor
      · rintro (hroom | hfull)
        · left
          omega
        · exact absurd hfull.2 hnot
      · rintro (hroom | hdrop | hshort | hfull)
        · left
          refine ⟨?_, hsuffix⟩
          omega
        · omega
        · omega
        · omega
    · -- the file is dropped
      have hnot := not_tail_suffix_dash base line c
      constructor
      · rintro (hname | hfull)
        · right
          left
          refine ⟨?_, ?_, hname.2⟩ <;> omega
        · exact absurd hfull.2 hnot
      · rintro (hroom | hdrop | hshort | hfull)
        · omega
        · left
          refine ⟨?_, hdrop.2.2⟩
          omega
        · omega
        · omega
  · have hdrop : appendText n c (ascii " - ") = c := appendText_drops (by change n ≤ _ + 3; omega)
    rw [hdrop, tail_suffix_named_iff hlength hnil hdigit hc]
    split_ifs with hbase
    · -- only the file is written
      constructor
      · rintro (hname | hfull)
        · omega
        · right
          right
          left
          refine ⟨?_, hfull⟩
          omega
      · rintro (hroom | hdrop | hshort | hfull)
        · omega
        · omega
        · exact .inr hshort.2
        · have hempty : base = [] := by
            rw [← List.length_eq_zero_iff]
            omega
          right
          rw [hempty, List.append_nil, List.length_nil]
          rw [hempty] at hfull
          exact hfull
    · constructor
      · rintro (hname | hfull)
        · omega
        · exact .inr (.inr (.inr hfull))
      · rintro (hroom | hdrop | hshort | hfull)
        · omega
        · omega
        · omega
        · exact .inr hfull

theorem insertAll_contents {b : LogStream.Buffer kSmallBuffer} (hb : b.Sound)
    (values : List LogStream.Value) (hvalues : ∀ v ∈ values, v.text.length < 2 ^ 31) :
    ∃ b', insertAll b values = some b' ∧ b'.Sound ∧
      b'.contents = values.foldl put b.contents := by
  induction values generalizing b with
  | nil => exact ⟨b, rfl, hb, rfl⟩
  | cons v values ih =>
    obtain ⟨b', hb', hsound, hcontents⟩ :=
      insert_contents (by decide) hb fun _ => hvalues v List.mem_cons_self
    obtain ⟨b'', hb'', hsound', hcontents'⟩ :=
      ih hsound (fun w hw => hvalues w (List.mem_cons_of_mem v hw))
    refine ⟨b'', ?_, hsound', ?_⟩
    · rw [insertAll, List.foldlM_cons, hb']
      exact hb''
    · rw [hcontents', hcontents, List.foldl_cons]

theorem append_data_eq (c : FixedBuffer n) (str : Bytes) :
    (c.append str).data = appendText n c.data str := by
  rw [FixedBuffer.append, appendText]
  split_ifs with h hn hn
  · rfl
  · exact absurd h hn
  · exact absurd hn h
  · rfl

theorem appendNumber_data_eq (c : FixedBuffer n) {text : Bytes} (h : text.length < 32) :
    (appendNumber c text).data = appendLine n c.data text := by
  have hmax : kMaxNumericSize ≤ c.avail ↔ 32 ≤ n - c.data.length := by
    change (32 : ℤ) ≤ (n - c.data.length : ℕ) ↔ _
    omega
  rw [appendNumber, appendLine]
  split_ifs with hroom hn hn
  · exact FixedBuffer.append_data (lt_of_lt_of_le h (hmax.mp hroom))
  · exact absurd (hmax.mp hroom) hn
  · exact absurd (hmax.mpr hn) hroom
  · rfl

theorem put_text {v : LogStream.Value} (h : v.isNumber = false) (c : FixedBuffer n) :
    put c v = c.append v.text := by
  rw [put, h]
  rfl

def finishValues (base : Bytes) (line : Int32) : List LogStream.Value :=
  [.chars (some (ascii " - ")), .string base, .char colon, .int line, .char newline]

theorem finish_data (c : FixedBuffer n) (base : Bytes) (line : Int32) :
    ((finishValues base line).foldl put c).data =
      finishText n c.data base (decimal line.toInt) := by
  have hdash : LogStream.Value.text (.chars (some (ascii " - "))) = ascii " - " := by decide
  have hline : (decimal line.toInt).length < 32 :=
    (length_decimal_int32 line.le_toInt line.toInt_lt).trans_lt (by decide)
  have hnumber : ∀ d : FixedBuffer n,
      put d (.int line) = appendNumber d (decimal line.toInt) := fun _ => rfl
  simp only [finishValues, List.foldl_cons, List.foldl_nil, hnumber]
  rw [put_text rfl, put_text rfl, put_text rfl, put_text rfl, hdash, append_data_eq,
    appendNumber_data_eq _ hline, append_data_eq, append_data_eq, append_data_eq]
  rfl

theorem length_cstr_le (str : Bytes) : (cstr str).length ≤ str.length :=
  List.Sublist.length_le (List.takeWhile_sublist _)

theorem length_afterSlash_le (file : Bytes) : (afterSlash file).length ≤ file.length := by
  rw [afterSlash, List.length_reverse]
  refine (List.Sublist.length_le (List.takeWhile_sublist _)).trans ?_
  rw [List.length_reverse]
  exact length_cstr_le file

def header (thread : Thread) (level : Bytes) : List LogStream.Value :=
  [.chars (some thread.time), .chars (some (usecText thread.usec)),
    .chars (some thread.tidString), .chars (some level)]

theorem length_header (thread : Thread) {level : LogLevel} {text : Bytes}
    (h : LogLevelName level = some text) : ∀ v ∈ header thread text, v.text.length < 32 := by
  have hlevel : text.length = 7 := by
    cases level <;> cases h <;> rfl
  have husec : (usecText thread.usec).length ≤ 15 := List.length_take_le _ _
  intro v hv
  simp only [header, List.mem_cons, List.not_mem_nil, or_false] at hv
  rcases hv with rfl | rfl | rfl | rfl
  · exact (length_cstr_le _).trans_lt thread.length_time
  · exact (length_cstr_le _).trans_lt (by omega)
  · exact (length_cstr_le _).trans_lt thread.length_tid
  · exact (length_cstr_le _).trans_lt (by omega)

theorem inserted_logger (data : Bytes) (hdata : data.length = kSmallBuffer) (thread : Thread)
    (file : Bytes) (line : Int32) {level : LogLevel} (isAsync : Bool)
    {values : List LogStream.Value} {text : Bytes} (hlevel : LogLevelName level = some text)
    (hvalues : ∀ v ∈ values, v.text.length < 2 ^ 31) :
    ∃ stream : LogStream.Buffer kSmallBuffer,
      (new (.new data hdata) thread file line level isAsync).bind (fun l => l.insert values) =
        some ⟨stream, line, afterSlash file, isAsync⟩ ∧ stream.Sound ∧
      stream.contents =
        (header thread text ++ values).foldl put (LogStream.Buffer.new data hdata).contents := by
  have hsound := LogStream.Buffer.sound_new data hdata (by decide)
  obtain ⟨b, hb, hb_sound, hb_contents⟩ := insertAll_contents hsound (header thread text)
    fun v hv => (length_header thread hlevel v hv).trans (by decide)
  obtain ⟨stream, hstream, hstream_sound, hcontents⟩ := insertAll_contents hb_sound values hvalues
  refine ⟨stream, ?_, hstream_sound, ?_⟩
  · have hnew : new (.new data hdata) thread file line level isAsync =
        some ⟨b, line, afterSlash file, isAsync⟩ := by
      rw [new, hlevel, Option.bind_some, ← header, hb]
      rfl
    rw [hnew, Option.bind_some, insert, hstream]
    rfl
  · rw [hcontents, hb_contents, List.foldl_append]

/-- The record that a logger hands over ends as a complete one exactly when there was room for it,
or by chance. -/
theorem destroy_suffix_iff (l : Logger) (hl : l.stream.Sound) (hbase : l.basename.length < 2 ^ 31) :
    ∃ out, l.destroy = some out ∧
      (tail l.basename (decimal l.line.toInt) <:+ out.message ↔
        Completes kSmallBuffer l.stream.contents.data l.basename (decimal l.line.toInt)) := by
  have hline : (decimal l.line.toInt).length ≤ 11 :=
    length_decimal_int32 l.line.le_toInt l.line.toInt_lt
  have hnil : decimal l.line.toInt ≠ [] := by
    intro h
    have hparse := parseSigned_decimal l.line.toInt
    rw [h] at hparse
    cases hparse
  have hchars : ∀ c : UInt8, c ≠ 45 → ¬isDigit c → c ∉ decimal l.line.toInt := by
    intro c hminus hdigit hc
    rcases mem_decimal hc with hc | hc
    · exact hminus hc
    · exact hdigit hc
  obtain ⟨b, hb, -, hcontents⟩ := insertAll_contents hl (finishValues l.basename l.line) (by
      intro v hv
      simp only [finishValues, List.mem_cons, List.not_mem_nil, or_false] at hv
      rcases hv with rfl | rfl | rfl | rfl | rfl
      · exact (by decide : (cstr (ascii " - ")).length < 2 ^ 31)
      · exact hbase
      · exact (by decide : 1 < 2 ^ 31)
      · exact lt_of_le_of_lt hline (by decide)
      · exact (by decide : 1 < 2 ^ 31))
  have hdata : b.contents.data =
      finishText kSmallBuffer l.stream.contents.data l.basename (decimal l.line.toInt) := by
    rw [hcontents, finish_data]
  refine ⟨if l.isAsync then .append b.contents.data else .output b.contents.data, ?_, ?_⟩
  · rw [destroy, finish, insert, ← finishValues, hb]
    rfl
  · have hmessage : (if l.isAsync then Output.append b.contents.data
        else .output b.contents.data).message = b.contents.data := by
      split_ifs <;> rfl
    rw [hmessage, hdata]
    refine tail_suffix_finishText_iff hline hnil ?_ (hchars 32 (by decide) (by decide)) ?_
    · intro hlast
      exact hchars colon (by decide) (by decide) (List.mem_of_getLast? hlast)
    · exact (LogStream.Buffer.length_contents hl).trans_lt hl

/-- For any file, line, level and insertions, the record that is handed over ends with the file and
the line exactly when, before it is finished, the stream has room for them and for a number of any
size, or when it ends so by chance. -/
theorem record_complete_iff (data : Bytes) (hdata : data.length = kSmallBuffer) (thread : Thread)
    (file : Bytes) (line : Int32) (level : LogLevel) (isAsync : Bool)
    (values : List LogStream.Value) (hlevel : level ≠ .NONLOG) (hfile : file.length < 2 ^ 31)
    (hvalues : ∀ v ∈ values, v.text.length < 2 ^ 31) :
    ∃ l out, (new (.new data hdata) thread file line level isAsync).bind
        (fun l => l.insert values) = some l ∧ l.destroy = some out ∧
      (tail (afterSlash file) (decimal line.toInt) <:+ out.message ↔
        Completes kSmallBuffer l.stream.contents.data (afterSlash file)
          (decimal line.toInt)) := by
  obtain ⟨text, htext⟩ : ∃ text, LogLevelName level = some text := by
    cases level with
    | NONLOG => exact absurd rfl hlevel
    | _ => exact ⟨_, rfl⟩
  obtain ⟨stream, hnew, hsound, -⟩ :=
    inserted_logger data hdata thread file line isAsync htext hvalues
  obtain ⟨out, hout, hsuffix⟩ := destroy_suffix_iff ⟨stream, line, afterSlash file, isAsync⟩ hsound
    ((length_afterSlash_le file).trans_lt hfile)
  exact ⟨_, out, hnew, hout, hsuffix⟩

theorem foldl_put_data {c : FixedBuffer n} {values : List LogStream.Value}
    (htext : ∀ v ∈ values, v.isNumber = false)
    (hfits : c.data.length + (values.flatMap LogStream.Value.text).length < n) :
    (values.foldl put c).data = c.data ++ values.flatMap LogStream.Value.text := by
  induction values generalizing c with
  | nil => exact (List.append_nil _).symm
  | cons v values ih =>
    rw [List.flatMap_cons, List.length_append] at hfits
    have hv : (put c v).data = c.data ++ v.text := by
      rw [put_text (htext v List.mem_cons_self), append_data_eq, appendText_fits (by omega)]
    rw [List.foldl_cons, ih fun w hw => htext w (List.mem_cons_of_mem v hw)]
    · rw [hv, List.flatMap_cons, List.append_assoc]
    · rw [hv, List.length_append]
      omega

def sampleThread : Thread where
  time := ascii "2024.05.06-12:00:00"
  usec := 0
  tidString := ascii " 1234 "
  length_time := by decide
  length_tid := by decide

theorem short_record_complete :
    ∃ l out, (new (.new (List.replicate kSmallBuffer 0) List.length_replicate) sampleThread
        (ascii "src/a.cc") 7 .INFO false).bind
        (fun l => l.insert [.string (ascii "hello"), .int 5]) = some l ∧
      l.destroy = some out ∧
      (tail (afterSlash (ascii "src/a.cc")) (decimal (7 : Int32).toInt) <:+ out.message ↔
        Completes kSmallBuffer l.stream.contents.data (afterSlash (ascii "src/a.cc"))
          (decimal (7 : Int32).toInt)) :=
  record_complete_iff (List.replicate kSmallBuffer 0) List.length_replicate sampleThread
    (ascii "src/a.cc") 7 .INFO false [.string (ascii "hello"), .int 5] (by decide) (by decide)
    (by decide)

/-- The text of `k` bytes behind the header of the sample. -/
def sampleValues (k : ℕ) : List LogStream.Value :=
  header sampleThread (ascii " INFO  ") ++ [.string (List.replicate k 120)]

theorem length_sampleValues (k : ℕ) :
    ((sampleValues k).flatMap LogStream.Value.text).length = 40 + k := by
  have hheader : ((header sampleThread (ascii " INFO  ")).flatMap LogStream.Value.text).length =
      40 := by decide
  rw [sampleValues, List.flatMap_append, List.length_append, hheader, List.flatMap_singleton]
  exact congrArg (40 + ·) List.length_replicate

/-- A text of 4030 bytes leaves 26 for the end of the record: the number of the line is dropped. -/
theorem long_record_incomplete :
    ∃ l out, (new (.new (List.replicate kSmallBuffer 0) List.length_replicate) sampleThread
        (ascii "a.cc") 7 .INFO true).bind
        (fun l => l.insert [.string (List.replicate 4030 120)]) = some l ∧
      l.destroy = some out ∧
      ¬tail (afterSlash (ascii "a.cc")) (decimal (7 : Int32).toInt) <:+ out.message := by
  have hvalues : ∀ v ∈ [LogStream.Value.string (List.replicate 4030 120)],
      v.text.length < 2 ^ 31 := by
    intro v hv
    rw [List.mem_singleton.mp hv]
    exact (List.length_replicate (n := 4030)).trans_lt (by decide)
  obtain ⟨stream, hnew, hsound, hcontents⟩ := inserted_logger (List.replicate kSmallBuffer 0)
    List.length_replicate sampleThread (ascii "a.cc") 7 true
    (show LogLevelName .INFO = some (ascii " INFO  ") from rfl) hvalues
  obtain ⟨out, hout, hsuffix⟩ :=
    destroy_suffix_iff ⟨stream, 7, afterSlash (ascii "a.cc"), true⟩ hsound
      (show (afterSlash (ascii "a.cc")).length < 2 ^ 31 by decide)
  have hdata : stream.contents.data.length = 40 + 4030 := by
    rw [hcontents, ← sampleValues, foldl_put_data (by decide)
      (by rw [length_sampleValues]; decide)]
    exact length_sampleValues 4030
  refine ⟨_, out, hnew, hout, ?_⟩
  rw [hsuffix]
  have hbase : (afterSlash (ascii "a.cc")).length = 4 := by decide
  rintro (hroom | hdrop | hshort | hfull)
  · rw [hdata, hbase] at hroom
    exact absurd hroom (by decide)
  · rw [hdata] at hdrop
    exact absurd hdrop.1 (by decide)
  · rw [hdata] at hshort
    exact absurd hshort.1 (by decide)
  · rw [hdata] at hfull
    exact absurd hfull.1 (by decide)

end Matelib.Logger
