import Mathlib.Data.List.TakeWhile
import Klyro.Util.Bytes

/-!
# Pulling a command off the read buffer (`resp.rs`, the request half)

* `parseRequest` — one command off the front of the buffer, from an array of bulk strings or from
  a bare line.  `none` is a panic: every index and slice of the source is taken through `slice` or
  `[_]?`, and `parseRequest_returns` says that none of them is ever out of range.
* `Parsed.Within` — an accepted command uses at least one byte and no more than there are.
* `parseRequest_append` — what has been decided on a buffer stays decided when more bytes arrive,
  the size limit of a bare line apart.
-/

set_option autoImplicit false

namespace Klyro

/-- `buf[from..to]`; `none` is the out-of-range panic. -/
def slice (buf : Bytes) (start stop : Nat) : Option Bytes :=
  if start ≤ stop ∧ stop ≤ buf.length then some ((buf.take stop).drop start) else none

/-- `read_line`: the contents of the next line and the offset just past its terminator. -/
def readLine (buf : Bytes) (start : Nat) : Option (Option (Bytes × Nat)) := do
  let rest ← slice buf start buf.length
  match rest.findIdx? (· == 10) with
  | none => return none
  | some i =>
    let newline := i + start
    if start < newline then
      let before ← buf[newline - 1]?
      let line ← slice buf start (if before = 13 then newline - 1 else newline)
      return some (line, newline + 1)
    else
      let line ← slice buf start newline
      return some (line, newline + 1)

/-- `terminator_len`. -/
def terminatorLen (buf : Bytes) (pos : Nat) : Option Nat := do
  let b ← buf[pos]?
  if b = 13 then
    let c ← buf[pos + 1]?
    if c = 10 then return 2 else return 1
  else return 1

/-- `parse_integer`. -/
def parseInteger (line : Bytes) : Option Int :=
  (Text.fromUtf8 line).bind fun text => Text.parseInt i64Min i64Max (Text.trim text)

/-- What `parse_request` returns: `Ok(None)`, `Ok(Some(Request { argv, consumed }))` or
`Err(ProtocolError(message))`. -/
inductive Parsed where
  | incomplete
  | request (argv : List Bytes) (consumed : Nat)
  | error (message : String)
deriving DecidableEq

def invalidMultibulkLength : Parsed := .error "ERR Protocol error: invalid multibulk length"

def invalidBulkLength : Parsed := .error "ERR Protocol error: invalid bulk length"

/-- The loop of `parse_array_request`, with `count` arguments still to come. -/
def parseArgs (buf : Bytes) (maxBulkLen : Nat) : Nat → Nat → List Bytes → Option Parsed
  | 0, pos, argv => some (.request argv pos)
  | count + 1, pos, argv =>
    if buf.length ≤ pos then some .incomplete
    else do
      let marker ← buf[pos]?
      if marker ≠ 36 then
        return .error ("ERR Protocol error: expected '$', got '" ++
          String.singleton (Char.ofNat marker.toNat) ++ "'")
      else
        match ← readLine buf (pos + 1) with
        | none => return .incomplete
        | some (header, afterHeader) =>
          match parseInteger header with
          | none => return invalidBulkLength
          | some len =>
            if len < 0 ∨ maxBulkLen < len.toNat then return invalidBulkLength
            else if buf.length ≤ afterHeader + len.toNat then return .incomplete
            else
              match terminatorLen buf (afterHeader + len.toNat) with
              | none => return .incomplete
              | some terminator =>
                if buf.length < afterHeader + len.toNat + terminator then return .incomplete
                else
                  let payload ← slice buf afterHeader (afterHeader + len.toNat)
                  parseArgs buf maxBulkLen count (afterHeader + len.toNat + terminator)
                    (argv ++ [payload])

/-- `parse_array_request`. -/
def parseArrayRequest (buf : Bytes) (maxBulkLen : Nat) : Option Parsed := do
  match ← readLine buf 1 with
  | none => return .incomplete
  | some (header, pos) =>
    match parseInteger header with
    | none => return invalidMultibulkLength
    | some count =>
      if count ≤ 0 then return .request [] pos
      else if 1024 * 1024 < count then return invalidMultibulkLength
      else parseArgs buf maxBulkLen count.toNat pos []

/-- `u8::is_ascii_whitespace`. -/
def isAsciiWhitespace (b : UInt8) : Bool := b = 32 || b = 9 || b = 10 || b = 12 || b = 13

/-- The byte an escape stands for between double quotes. -/
def unescape (b : UInt8) : UInt8 :=
  if b = 110 then 10 else if b = 114 then 13 else if b = 116 then 9 else b

/-- The loop of `parse_inline_request` over the rest of the line: the finished arguments, the
current one, whether one is open, and the open quote. -/
def splitLine : Bytes → List Bytes → Bytes → Bool → Option UInt8 → Option (List Bytes)
  | [], argv, current, inToken, quote =>
    if quote.isSome then none
    else if inToken then some (argv ++ [current])
    else some argv
  | byte :: rest, argv, current, inToken, some q =>
    if byte = 92 ∧ q = 34 then
      match rest with
      -- a backslash that ends the line stands for itself
      | [] => splitLine [] argv (current ++ [byte]) inToken (some q)
      | escaped :: rest => splitLine rest argv (current ++ [unescape escaped]) inToken (some q)
    else if byte = q then splitLine rest argv current inToken none
    else splitLine rest argv (current ++ [byte]) inToken (some q)
  | byte :: rest, argv, current, inToken, none =>
    if byte = 34 ∨ byte = 39 then splitLine rest argv current true (some byte)
    else if isAsciiWhitespace byte then
      if inToken then splitLine rest (argv ++ [current]) [] false none
      else splitLine rest argv current false none
    else splitLine rest argv (current ++ [byte]) true none

/-- The longest bare line that may wait for its end: 64 KiB. -/
def inlineLimit : Nat := 64 * 1024

/-- `parse_inline_request`. -/
def parseInlineRequest (buf : Bytes) : Option Parsed := do
  match ← readLine buf 0 with
  | none =>
    if inlineLimit < buf.length then return .error "ERR Protocol error: too big inline request"
    else return .incomplete
  | some (line, consumed) =>
    match splitLine line [] [] false none with
    | none => return .error "ERR Protocol error: unbalanced quotes in request"
    | some argv => return .request argv consumed

/-- `parse_request`. -/
def parseRequest (buf : Bytes) (maxBulkLen : Nat) : Option Parsed :=
  if buf.isEmpty then some .incomplete
  else do
    let first ← buf[0]?
    if first = 42 then parseArrayRequest buf maxBulkLen else parseInlineRequest buf

example : parseRequest (Text.bytes "GET \"a b\"\r\n") 512 =
    some (.request [Text.bytes "GET", Text.bytes "a b"] 11) := by decide +kernel

example : parseRequest (Text.bytes "*2\r\n$3\r\nGET\r\n$1\r\nk\r") 512 = some .incomplete := by
  decide +kernel

/-! ## Nothing is read out of range -/

theorem slice_of_le {buf : Bytes} {start stop : Nat} (h : start ≤ stop) (hs : stop ≤ buf.length) :
    slice buf start stop = some ((buf.take stop).drop start) := if_pos ⟨h, hs⟩

theorem slice_some {buf : Bytes} {start stop : Nat} {line : Bytes}
    (h : slice buf start stop = some line) :
    start ≤ stop ∧ stop ≤ buf.length ∧ line = (buf.take stop).drop start := by
  unfold slice at h
  split at h
  · rename_i hb
    exact ⟨hb.1, hb.2, (Option.some.inj h).symm⟩
  · exact nomatch h

/-- A position within the buffer has a byte. -/
theorem byte_of_lt (buf : Bytes) {pos : Nat} (h : pos < buf.length) : ∃ b, buf[pos]? = some b :=
  ⟨buf[pos], List.getElem?_eq_getElem h⟩

theorem readLine_returns (buf : Bytes) {start : Nat} (h : start ≤ buf.length) :
    readLine buf start = some none ∨
      ∃ line next, readLine buf start = some (some (line, next)) ∧ start < next ∧
        next ≤ buf.length := by
  unfold readLine
  rw [slice_of_le h le_rfl]
  simp only [List.take_length, Option.bind_eq_bind, Option.bind_some]
  cases hi : (buf.drop start).findIdx? (· == 10) with
  | none => exact Or.inl rfl
  | some i =>
    right
    obtain ⟨hlt, -⟩ := List.findIdx?_eq_some_iff_findIdx_eq.mp hi
    rw [List.length_drop] at hlt
    by_cases hs : start < i + start
    · obtain ⟨b, hb⟩ := byte_of_lt buf (show i + start - 1 < buf.length by omega)
      obtain ⟨line, hline⟩ : ∃ line, slice buf start
          (if b = 13 then i + start - 1 else i + start) = some line := by
        refine ⟨_, slice_of_le ?_ ?_⟩
        · split <;> omega
        · split <;> omega
      exact ⟨line, i + start + 1, by simp [hs, hb, hline], by omega, by omega⟩
    · obtain ⟨line, hline⟩ : ∃ line, slice buf start (i + start) = some line :=
        ⟨_, slice_of_le (by omega) (by omega)⟩
      exact ⟨line, i + start + 1, by simp [hs, hline], by omega, by omega⟩

/-- An accepted command used at least one byte more than `start` and at most what there is. -/
def Parsed.Within (start stop : Nat) : Parsed → Prop
  | .request _ consumed => start < consumed ∧ consumed ≤ stop
  | _ => True

theorem terminatorLen_pos {buf : Bytes} {pos n : Nat} (h : terminatorLen buf pos = some n) :
    0 < n := by
  unfold terminatorLen at h
  simp only [Option.bind_eq_bind, Option.bind_eq_some_iff] at h
  obtain ⟨b, -, h⟩ := h
  split at h
  · obtain ⟨c, -, h⟩ := Option.bind_eq_some_iff.mp h
    split at h <;> cases h <;> omega
  · cases h
    omega

theorem parseArgs_returns (buf : Bytes) (maxBulkLen : Nat) (count : Nat) :
    ∀ {pos low : Nat} (argv : List Bytes), low < pos → pos ≤ buf.length →
      ∃ r, parseArgs buf maxBulkLen count pos argv = some r ∧ r.Within low buf.length := by
  induction count with
  | zero =>
    intro pos low argv hlow hpos
    exact ⟨_, rfl, hlow, hpos⟩
  | succ count ih =>
    intro pos low argv hlow hpos
    unfold parseArgs
    by_cases hend : buf.length ≤ pos
    · exact ⟨.incomplete, if_pos hend, trivial⟩
    · rw [if_neg hend]
      obtain ⟨marker, hm⟩ := byte_of_lt buf (show pos < buf.length by omega)
      simp only [hm, Option.bind_eq_bind, Option.bind_some]
      by_cases hd : marker = 36
      · rw [if_neg (by simp [hd])]
        rcases readLine_returns buf (show pos + 1 ≤ buf.length by omega) with
          hr | ⟨header, after, hr, hafter, hle⟩
        · exact ⟨.incomplete, by simp [hr], trivial⟩
        · simp only [hr, Option.bind_some]
          cases hlen : parseInteger header with
          | none => exact ⟨invalidBulkLength, rfl, trivial⟩
          | some len =>
            dsimp only
            by_cases hbad : len < 0 ∨ maxBulkLen < len.toNat
            · exact ⟨invalidBulkLength, by rw [if_pos hbad]; rfl, trivial⟩
            · rw [if_neg hbad]
              by_cases hfar : buf.length ≤ after + len.toNat
              · exact ⟨.incomplete, by rw [if_pos hfar]; rfl, trivial⟩
              · rw [if_neg hfar]
                cases ht : terminatorLen buf (after + len.toNat) with
                | none => exact ⟨.incomplete, rfl, trivial⟩
                | some terminator =>
                  dsimp only
                  have hpos' := terminatorLen_pos ht
                  by_cases hover : buf.length < after + len.toNat + terminator
                  · exact ⟨.incomplete, by rw [if_pos hover]; rfl, trivial⟩
                  · rw [if_neg hover, slice_of_le (by omega) (by omega)]
                    exact ih _ (by omega) (by omega)
      · rw [if_pos hd]
        exact ⟨_, rfl, trivial⟩

/-- **`parse_request` never indexes out of range**, and what it accepts takes at least one byte
and at most the whole buffer. -/
theorem parseRequest_returns (buf : Bytes) (maxBulkLen : Nat) :
    ∃ r, parseRequest buf maxBulkLen = some r ∧ r.Within 0 buf.length := by
  unfold parseRequest
  cases buf with
  | nil => exact ⟨.incomplete, rfl, trivial⟩
  | cons b rest =>
    simp only [List.isEmpty_cons, Bool.false_eq_true, if_false, List.getElem?_cons_zero,
      Option.bind_eq_bind, Option.bind_some]
    split
    · unfold parseArrayRequest
      rcases readLine_returns (b :: rest) (show 1 ≤ (b :: rest).length by simp) with
        hr | ⟨header, pos, hr, hpos, hle⟩
      · exact ⟨.incomplete, by simp [hr], trivial⟩
      · simp only [hr, Option.bind_eq_bind, Option.bind_some]
        cases parseInteger header with
        | none => exact ⟨invalidMultibulkLength, rfl, trivial⟩
        | some count =>
          dsimp only
          split
          · exact ⟨_, rfl, by omega, hle⟩
          · split
            · exact ⟨_, rfl, trivial⟩
            · exact parseArgs_returns _ _ _ _ (by omega) hle
    · unfold parseInlineRequest
      rcases readLine_returns (b :: rest) (Nat.zero_le _) with
        hr | ⟨line, consumed, hr, hpos, hle⟩
      · simp only [hr, Option.bind_eq_bind, Option.bind_some]
        split
        · exact ⟨_, rfl, trivial⟩
        · exact ⟨_, rfl, trivial⟩
      · simp only [hr, Option.bind_eq_bind, Option.bind_some]
        split
        · exact ⟨_, rfl, trivial⟩
        · exact ⟨_, rfl, hpos, hle⟩

/-! ## What is decided stays decided -/

section append

variable {buf : Bytes} (more : Bytes)

theorem byte_append {pos : Nat} {b : UInt8} (h : buf[pos]? = some b) :
    (buf ++ more)[pos]? = some b := by
  obtain ⟨hlt, -⟩ := List.getElem?_eq_some_iff.mp h
  rw [List.getElem?_append_left hlt, h]

theorem slice_append {start stop : Nat} {line : Bytes} (h : slice buf start stop = some line) :
    slice (buf ++ more) start stop = some line := by
  obtain ⟨hle, hstop, rfl⟩ := slice_some h
  rw [slice_of_le hle (by rw [List.length_append]; omega), List.take_append_of_le_length hstop]

theorem readLine_append {start : Nat} {r : Bytes × Nat} (h : readLine buf start = some (some r)) :
    readLine (buf ++ more) start = some (some r) := by
  unfold readLine at h ⊢
  simp only [Option.bind_eq_bind, Option.bind_eq_some_iff] at h
  obtain ⟨rest, hrest, h⟩ := h
  obtain ⟨hle, -, rfl⟩ := slice_some hrest
  rw [List.take_length] at h
  rw [slice_of_le (by rw [List.length_append]; omega) le_rfl, List.take_length,
    List.drop_append_of_le_length hle]
  simp only [Option.bind_eq_bind, Option.bind_some]
  cases hi : (buf.drop start).findIdx? (· == 10) with
  | none =>
    rw [hi] at h
    exact nomatch h
  | some i =>
    rw [hi] at h
    have hi' : (buf.drop start ++ more).findIdx? (· == 10) = some i := by
      rw [List.findIdx?_append, hi]
      rfl
    rw [hi']
    dsimp only at h ⊢
    split at h
    · rename_i hs
      simp only [Option.bind_eq_some_iff] at h
      obtain ⟨before, hb, line, hline, h⟩ := h
      rw [if_pos hs, byte_append more hb]
      simp only [Option.bind_some, slice_append more hline]
      exact h
    · rename_i hs
      obtain ⟨line, hline, h⟩ := Option.bind_eq_some_iff.mp h
      rw [if_neg hs, slice_append more hline]
      exact h

theorem terminatorLen_append {pos n : Nat} (h : terminatorLen buf pos = some n) :
    terminatorLen (buf ++ more) pos = some n := by
  unfold terminatorLen at h ⊢
  simp only [Option.bind_eq_bind, Option.bind_eq_some_iff] at h
  obtain ⟨b, hb, h⟩ := h
  simp only [byte_append more hb, Option.bind_eq_bind, Option.bind_some]
  split at h
  · rename_i hcr
    obtain ⟨c, hc, h⟩ := Option.bind_eq_some_iff.mp h
    rw [if_pos hcr, byte_append more hc]
    exact h
  · rename_i hcr
    rw [if_neg hcr]
    exact h

/-- The loop over the arguments: an answer other than "not yet" does not look beyond the buffer. -/
theorem parseArgs_append {maxBulkLen : Nat} {r : Parsed} (hr : r ≠ .incomplete) (count : Nat) :
    ∀ {pos : Nat} {argv : List Bytes}, parseArgs buf maxBulkLen count pos argv = some r →
      parseArgs (buf ++ more) maxBulkLen count pos argv = some r := by
  induction count with
  | zero =>
    intro pos argv h
    exact h
  | succ count ih =>
    intro pos argv h
    have hlen : (buf ++ more).length = buf.length + more.length := List.length_append
    unfold parseArgs at h ⊢
    split at h
    · exact absurd (Option.some.inj h).symm hr
    · rename_i hend
      simp only [Option.bind_eq_bind, Option.bind_eq_some_iff] at h
      obtain ⟨marker, hm, h⟩ := h
      rw [if_neg (by omega), byte_append more hm]
      simp only [Option.bind_eq_bind, Option.bind_some]
      split at h
      · rename_i hd
        rw [if_pos hd]
        exact h
      · rename_i hd
        rw [if_neg hd]
        obtain ⟨line, hline, h⟩ := Option.bind_eq_some_iff.mp h
        cases line with
        | none => exact absurd (Option.some.inj h).symm hr
        | some line =>
          rw [readLine_append more hline]
          simp only [Option.bind_some]
          dsimp only at h
          cases hint : parseInteger line.1 with
          | none =>
            rw [hint] at h
            exact h
          | some len =>
            rw [hint] at h
            dsimp only at h ⊢
            split at h
            · rename_i hbad
              rw [if_pos hbad]
              exact h
            · rename_i hbad
              rw [if_neg hbad]
              split at h
              · exact absurd (Option.some.inj h).symm hr
              · rw [if_neg (by omega)]
                cases ht : terminatorLen buf (line.2 + len.toNat) with
                | none =>
                  rw [ht] at h
                  exact absurd (Option.some.inj h).symm hr
                | some terminator =>
                  rw [ht] at h
                  rw [terminatorLen_append more ht]
                  dsimp only at h ⊢
                  split at h
                  · exact absurd (Option.some.inj h).symm hr
                  · rw [if_neg (by omega)]
                    obtain ⟨payload, hp, h⟩ := Option.bind_eq_some_iff.mp h
                    rw [slice_append more hp]
                    exact ih h

end append

/-- A bare line longer than the limit stands at the front: this many bytes before its newline, or
before the end of what has arrived. -/
def LongInline (buf : Bytes) : Prop :=
  buf ≠ [] ∧ buf.head? ≠ some 42 ∧ inlineLimit < (buf.takeWhile (· ≠ 10)).length

theorem LongInline.append {buf : Bytes} (h : LongInline buf) (more : Bytes) :
    LongInline (buf ++ more) := by
  obtain ⟨hne, hstar, hlong⟩ := h
  refine ⟨List.append_ne_nil_of_left_ne_nil hne more, ?_, ?_⟩
  · rw [List.head?_append_of_ne_nil _ hne]
    exact hstar
  · rw [List.takeWhile_append]
    split
    · rename_i hall
      rw [List.length_append]
      omega
    · exact hlong

theorem readLine_none {buf : Bytes} (h : readLine buf 0 = some none) :
    buf.takeWhile (· ≠ 10) = buf := by
  unfold readLine at h
  rw [slice_of_le (Nat.zero_le _) le_rfl] at h
  simp only [List.take_length, List.drop_zero, Option.bind_eq_bind, Option.bind_some] at h
  cases hi : buf.findIdx? (· == 10) with
  | none =>
    rw [List.findIdx?_eq_none_iff] at hi
    apply List.takeWhile_eq_self_iff.mpr
    intro b hb
    simpa using hi b hb
  | some i =>
    rw [hi] at h
    dsimp only at h
    split at h
    · simp only [Option.bind_eq_some_iff] at h
      obtain ⟨_, _, _, _, h⟩ := h
      exact nomatch h
    · obtain ⟨_, _, h⟩ := Option.bind_eq_some_iff.mp h
      exact nomatch h

/-- **What has been decided stays decided**: an answer other than "not yet" is the answer on every
longer buffer that does not hold an overlong bare line. -/
theorem parseRequest_append {buf : Bytes} {maxBulkLen : Nat} {r : Parsed}
    (h : parseRequest buf maxBulkLen = some r) (hr : r ≠ .incomplete) (more : Bytes)
    (hshort : ¬ LongInline (buf ++ more)) :
    parseRequest (buf ++ more) maxBulkLen = some r := by
  unfold parseRequest at h ⊢
  cases buf with
  | nil => exact absurd (Option.some.inj h).symm hr
  | cons b rest =>
    simp only [List.cons_append, List.isEmpty_cons, Bool.false_eq_true, if_false,
      List.getElem?_cons_zero, Option.bind_eq_bind, Option.bind_some] at h ⊢
    rw [← List.cons_append]
    split at h
    · rename_i hstar
      rw [if_pos hstar]
      unfold parseArrayRequest at h ⊢
      obtain ⟨line, hline, h⟩ := Option.bind_eq_some_iff.mp h
      cases line with
      | none => exact absurd (Option.some.inj h).symm hr
      | some line =>
        rw [readLine_append more hline]
        simp only [Option.bind_eq_bind, Option.bind_some]
        dsimp only at h
        cases hint : parseInteger line.1 with
        | none =>
          rw [hint] at h
          exact h
        | some count =>
          rw [hint] at h
          dsimp only at h ⊢
          split at h
          · rename_i hle
            rw [if_pos hle]
            exact h
          · rename_i hle
            rw [if_neg hle]
            split at h
            · rename_i hbig
              rw [if_pos hbig]
              exact h
            · rename_i hbig
              rw [if_neg hbig]
              exact parseArgs_append more hr _ h
    · rename_i hstar
      rw [if_neg hstar]
      unfold parseInlineRequest at h ⊢
      obtain ⟨line, hline, h⟩ := Option.bind_eq_some_iff.mp h
      cases line with
      | none =>
        dsimp only at h
        split at h
        · rename_i hlimit
          have hlong : LongInline (b :: rest) := by
            refine ⟨List.cons_ne_nil b rest, by simpa using hstar, ?_⟩
            rw [readLine_none hline]
            exact hlimit
          exact absurd (hlong.append more) hshort
        · exact absurd (Option.some.inj h).symm hr
      | some line =>
        rw [readLine_append more hline]
        exact h

end Klyro
