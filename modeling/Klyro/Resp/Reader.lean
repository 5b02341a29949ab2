import Klyro.Lib.Utf8
import Klyro.Resp.Frame

/-!
# The client's end of the wire (`tests/common/mod.rs`)

The repository's own client reads replies with a parser that shares nothing with the server's
encoder.  What a vector of items takes before they arrive is not modelled.

* `Common.parse` — one reply from the front of a buffer; `readValue` — reading until there is one.
* `Reads` — the frames, with what a client sees in each.
* `parse_reads`, `parse_cut` — a whole frame is read as that, a part of one is waited for.
* `reads_encode` — every reply is encoded to a frame that is seen as what it means.
* `readMany_wire` — so a stream of replies is read back, however it arrives.
-/

set_option autoImplicit false

namespace Klyro

namespace Common

/-- `Value`: a parsed reply. -/
inductive Value where
  | simple (text : List Char)
  | error (text : List Char)
  | int (n : Int)
  | bulk (payload : Bytes)
  | nil
  | array (items : List Value)
  | nilArray

/-- What `parse` comes to; `incomplete` is its `None`. -/
inductive Parsed (α : Type) where
  | incomplete
  | value (v : α) (consumed : Nat)
  | panicked

/-- `read_line` from the second byte on, on what is behind the first: the line, and how many bytes it
takes with its end. -/
def readLine : Bytes → Option (Bytes × Nat)
  | [] => none
  | b :: rest =>
    if b = 13 ∧ rest.head? = some 10 then some ([], 2)
    else (readLine rest).map fun p => (b :: p.1, p.2 + 1)

/-- The loop over the items of an aggregate. -/
def parseItems (parse : Bytes → Parsed Value) : Nat → Bytes → Parsed (List Value)
  | 0, _ => .value [] 0
  | count + 1, buf =>
    match parse buf with
    | .incomplete => .incomplete
    | .panicked => .panicked
    | .value item consumed =>
      match parseItems parse count (buf.drop consumed) with
      | .incomplete => .incomplete
      | .panicked => .panicked
      | .value items more => .value (item :: items) (consumed + more)

/-- A number in a first line. -/
def parseCount (text : List Char) : Option Int := Text.parseInt i64Min i64Max (Text.trim text)

/-- The arms of `parse`, once the first line is there: its marker, what is behind the marker, and how
many bytes it takes; `parse` reads the items. -/
def parseMarked (parse : Bytes → Parsed Value) (buf : Bytes) (marker : UInt8) (line : Bytes)
    (after : Nat) : Parsed Value :=
  let text := Text.fromUtf8Lossy line
  if marker = 43 then .value (.simple text) after
  else if marker = 45 then .value (.error text) after
  else if marker = 58 then
    match parseCount text with
    | none => .incomplete
    | some i => .value (.int i) after
  else if marker = 95 then .value .nil after
  else if marker = 44 then .value (.bulk line) after
  else if marker = 35 then .value (.int (if line = [116] then 1 else 0)) after
  else if marker = 36 then
    match parseCount text with
    | none => .incomplete
    | some len =>
      if len < 0 then .value .nil after
      else if buf.length < after + len.toNat + 2 then .incomplete
      else .value (.bulk ((buf.drop after).take len.toNat)) (after + len.toNat + 2)
  else if marker = 42 ∨ marker = 126 ∨ marker = 37 ∨ marker = 62 then
    match parseCount text with
    | none => .incomplete
    | some count =>
      if count < 0 then .value .nilArray after
      else
        -- a map's length counts pairs
        match parseItems parse (if marker = 37 then count.toNat * 2 else count.toNat)
          (buf.drop after) with
        | .incomplete => .incomplete
        | .panicked => .panicked
        | .value items consumed => .value (.array items) (after + consumed)
  else .panicked

/-- `parse`, to a depth of aggregates. -/
def parseWithin : Nat → Bytes → Parsed Value
  | 0, _ => .incomplete
  | depth + 1, buf =>
    match readLine (buf.drop 1), buf.head? with
    | some (line, n), some marker => parseMarked (parseWithin depth) buf marker line (n + 1)
    | _, _ => .incomplete

/-- `parse`.  An aggregate takes bytes before its items, so there are no more levels than bytes. -/
def parse (buf : Bytes) : Parsed Value := parseWithin (buf.length + 1) buf

/-- What `read_value` comes to, with the buffer and the chunks that are left. -/
inductive Read (α : Type) where
  | done (v : α) (buffer : Bytes) (chunks : List Bytes)
  /-- Nothing more arrives. -/
  | waiting
  | panicked

/-- `read_value`, over the chunks the socket is going to yield; an empty one is the end of the
stream. -/
def readValue : Bytes → List Bytes → Read Value
  | buffer, chunks =>
    match parse buffer with
    | .value v consumed => .done v (buffer.drop consumed) chunks
    | .panicked => .panicked
    | .incomplete =>
      match chunks with
      | [] => .waiting
      | chunk :: chunks => if chunk.isEmpty then .panicked else readValue (buffer ++ chunk) chunks

/-- So many replies, one after the other. -/
def readMany : Nat → Bytes → List Bytes → Read (List Value)
  | 0, buffer, chunks => .done [] buffer chunks
  | n + 1, buffer, chunks =>
    match readValue buffer chunks with
    | .waiting => .waiting
    | .panicked => .panicked
    | .done v buffer chunks =>
      match readMany n buffer chunks with
      | .waiting => .waiting
      | .panicked => .panicked
      | .done vs buffer chunks => .done (v :: vs) buffer chunks

/-! ## Frames and what is seen in them -/

/-- A frame is seen as a value. -/
inductive Reads : Bytes → Value → Prop
  | simple {text : List Char} : 13 ∉ Text.utf8 text →
      Reads (43 :: (Text.utf8 text ++ crlf)) (.simple text)
  | error {text : List Char} : 13 ∉ Text.utf8 text →
      Reads (45 :: (Text.utf8 text ++ crlf)) (.error text)
  | int {n : Int} : i64Min ≤ n ∧ n ≤ i64Max → Reads (58 :: (showIntBytes n ++ crlf)) (.int n)
  | null : Reads (95 :: ([] ++ crlf)) .nil
  | nullBulk : Reads (36 :: (Text.bytes "-1" ++ crlf)) .nil
  | nullArray : Reads (42 :: (Text.bytes "-1" ++ crlf)) .nilArray
  | score {line : Bytes} : 13 ∉ line → Reads (44 :: (line ++ crlf)) (.bulk line)
  | bulk {payload : Bytes} : (payload.length : Int) ≤ i64Max →
      Reads (36 :: (digitBytes payload.length ++ crlf) ++ (payload ++ crlf)) (.bulk payload)
  | aggregate {marker : UInt8} {n k : Nat} {parts : List (Bytes × Value)} :
      perCount marker = some k → (n : Int) ≤ i64Max → parts.length = n * k →
      (∀ p ∈ parts, Reads p.1 p.2) →
      Reads (marker :: (digitBytes n ++ crlf) ++ (parts.map Prod.fst).flatten)
        (.array (parts.map Prod.snd))

/-! ## The first line -/

theorem readLine_none {t : Bytes} (h : 13 ∉ t) : readLine t = none := by
  induction t with
  | nil => rfl
  | cons b t ih =>
    have hb := List.ne_of_not_mem_cons h
    have ht := List.not_mem_of_not_mem_cons h
    unfold readLine
    rw [if_neg (fun hcr => hb hcr.1.symm), ih ht]
    rfl

/-- A line ends at its line break. -/
theorem readLine_append {line : Bytes} (h : 13 ∉ line) (rest : Bytes) :
    readLine (line ++ crlf ++ rest) = some (line, line.length + 2) := by
  induction line with
  | nil => rfl
  | cons b line ih =>
    have hb := List.ne_of_not_mem_cons h
    have hline := List.not_mem_of_not_mem_cons h
    rw [List.cons_append, List.cons_append]
    unfold readLine
    rw [if_neg (fun hcr => hb hcr.1.symm), ih hline]
    rfl

/-- Half a line break ends nothing. -/
theorem readLine_half {line : Bytes} (h : 13 ∉ line) : readLine (line ++ [13]) = none := by
  induction line with
  | nil => rfl
  | cons b line ih =>
    have hb := List.ne_of_not_mem_cons h
    have hline := List.not_mem_of_not_mem_cons h
    rw [List.cons_append]
    unfold readLine
    rw [if_neg (fun hcr => hb hcr.1.symm), ih hline]
    rfl

/-- A proper part of two texts is one of the first, or the first and a proper part of the second. -/
theorem cut_append {α : Type} {t a b : List α} (h : t <+: a ++ b) (hne : t ≠ a ++ b) :
    (t <+: a ∧ t ≠ a) ∨ ∃ u, t = a ++ u ∧ u <+: b ∧ u ≠ b := by
  rcases List.prefix_or_prefix_of_prefix h (List.prefix_append a b) with ht | ⟨u, rfl⟩
  · by_cases hta : t = a
    · subst hta
      refine Or.inr ⟨[], (List.append_nil t).symm, List.nil_prefix, ?_⟩
      rintro rfl
      exact hne (List.append_nil t).symm
    · exact Or.inl ⟨ht, hta⟩
  · refine Or.inr ⟨u, rfl, (List.prefix_append_right_inj a).mp h, ?_⟩
    rintro rfl
    exact hne rfl

theorem readLine_cut {line t : Bytes} (h : 13 ∉ line) (ht : t <+: line ++ crlf)
    (hne : t ≠ line ++ crlf) : readLine t = none := by
  rcases cut_append ht hne with ⟨hline, -⟩ | ⟨u, rfl, hu, hne⟩
  · exact readLine_none fun hmem => h (hline.subset hmem)
  · rcases u with - | ⟨b, u⟩
    · rw [List.append_nil]
      exact readLine_none h
    · obtain ⟨rfl, hu₁⟩ := List.cons_prefix_cons.mp hu
      rcases u with - | ⟨c, u⟩
      · exact readLine_half h
      · obtain ⟨rfl, hu₂⟩ := List.cons_prefix_cons.mp hu₁
        exact absurd (by rw [List.prefix_nil.mp hu₂]; rfl) hne

/-- Once the first line is there, its marker decides. -/
theorem parse_line {marker : UInt8} {line : Bytes} (h : 13 ∉ line) (depth : Nat) (body : Bytes) :
    parseWithin (depth + 1) (marker :: (line ++ crlf) ++ body) =
      parseMarked (parseWithin depth) (marker :: (line ++ crlf) ++ body) marker line
        (line.length + 3) := by
  have hline : readLine ((marker :: (line ++ crlf) ++ body).drop 1) = some (line, line.length + 2) := by
    rw [List.cons_append, List.drop_one, List.tail_cons]
    exact readLine_append h body
  unfold parseWithin
  rw [hline]
  rfl

/-- Before that, nothing is read. -/
theorem parse_line_cut {marker : UInt8} {line t : Bytes} (h : 13 ∉ line) (depth : Nat)
    (ht : t <+: marker :: (line ++ crlf)) (hne : t ≠ marker :: (line ++ crlf)) :
    parseWithin (depth + 1) t = .incomplete := by
  have hnone : readLine (t.drop 1) = none := by
    rcases t with - | ⟨b, t⟩
    · rfl
    · obtain ⟨rfl, htail⟩ := List.cons_prefix_cons.mp ht
      rw [List.drop_one, List.tail_cons]
      refine readLine_cut h htail ?_
      rintro rfl
      exact hne rfl
  unfold parseWithin
  rw [hnone]

/-! ## Whole frames -/

theorem drop_line {marker : UInt8} {line body : Bytes} :
    (marker :: (line ++ crlf) ++ body).drop (line.length + 3) = body := by
  have hlen : line.length + 3 = (marker :: (line ++ crlf)).length := by simp [crlf]
  rw [hlen, List.drop_left]

theorem parseCount_digits {n : Nat} (h : (n : Int) ≤ i64Max) :
    parseCount (Text.fromUtf8Lossy (digitBytes n)) = some (n : Int) := by
  unfold parseCount digitBytes
  rw [Text.fromUtf8Lossy_utf8, (Text.word_toDigits n).trim]
  have hshow : Text.showInt (n : Int) = Nat.toDigits 10 n := by
    unfold Text.showInt
    rw [if_neg (by omega), Int.natAbs_natCast]
  rw [← hshow]
  exact Text.parseInt_showInt ⟨by unfold i64Min; omega, h⟩

theorem parseCount_int {n : Int} (h : i64Min ≤ n ∧ n ≤ i64Max) :
    parseCount (Text.fromUtf8Lossy (showIntBytes n)) = some n := by
  unfold parseCount showIntBytes
  rw [Text.fromUtf8Lossy_utf8, (Text.word_showInt n).trim]
  exact Text.parseInt_showInt h

theorem parseCount_null : parseCount (Text.fromUtf8Lossy (Text.bytes "-1")) = some (-1) := by
  have hshow : Text.bytes "-1" = showIntBytes (-1) := by decide +kernel
  rw [hshow]
  exact parseCount_int ⟨by decide, by decide⟩

/-- A row of frames is read item by item. -/
theorem parseItems_parts {parse : Bytes → Parsed Value} {parts : List (Bytes × Value)}
    (h : ∀ p ∈ parts, ∀ rest, parse (p.1 ++ rest) = .value p.2 p.1.length) (rest : Bytes) :
    parseItems parse parts.length ((parts.map Prod.fst).flatten ++ rest) =
      .value (parts.map Prod.snd) (parts.map Prod.fst).flatten.length := by
  induction parts with
  | nil => rfl
  | cons p parts ih =>
    rw [List.map_cons, List.flatten_cons, List.append_assoc, List.length_cons]
    unfold parseItems
    rw [h p (by simp)]
    dsimp only
    rw [List.drop_left, ih fun q hq => h q (by simp [hq])]
    dsimp only
    rw [List.length_append]
    rfl

/-- A part of a row is waited for. -/
theorem parseItems_cut {parse : Bytes → Parsed Value} : ∀ {parts : List (Bytes × Value)} {t : Bytes},
    (∀ p ∈ parts, ∀ rest, p.1 ++ rest <:+: t → parse (p.1 ++ rest) = .value p.2 p.1.length) →
    (∀ p ∈ parts, ∀ u, u <:+: t → u <+: p.1 → u ≠ p.1 → parse u = .incomplete) →
    t <+: (parts.map Prod.fst).flatten → t ≠ (parts.map Prod.fst).flatten →
    parseItems parse parts.length t = .incomplete := by
  intro parts
  induction parts with
  | nil => exact fun _ _ ht hne => absurd (List.prefix_nil.mp ht) hne
  | cons p parts ih =>
    intro t hwhole hcut ht hne
    rw [List.map_cons, List.flatten_cons] at ht hne
    rw [List.length_cons]
    unfold parseItems
    rcases cut_append ht hne with ⟨hp, hpne⟩ | ⟨u, rfl, hu, hune⟩
    · rw [hcut p (by simp) t (List.infix_refl t) hp hpne]
    · rw [hwhole p (by simp) u (List.infix_refl _)]
      dsimp only
      have hinfix : u <:+: p.1 ++ u := (List.suffix_append p.1 u).isInfix
      rw [List.drop_left, ih (fun q hq rest h => hwhole q (by simp [hq]) rest (h.trans hinfix))
        (fun q hq v h => hcut q (by simp [hq]) v (h.trans hinfix)) hu hune]

/-- Aggregates of a marker count so many items a unit. -/
theorem perCount_items {marker : UInt8} {n k : Nat} (h : perCount marker = some k) :
    (marker = 42 ∨ marker = 126 ∨ marker = 37 ∨ marker = 62) ∧
      (if marker = 37 then n * 2 else n) = n * k := by
  unfold perCount at h
  split at h
  · rename_i hmarker
    obtain rfl : 1 = k := Option.some.inj h
    rcases hmarker with rfl | rfl | rfl <;> simp
  · split at h
    · rename_i hmarker
      obtain rfl : 2 = k := Option.some.inj h
      simp [hmarker]
    · cases h

/-- The arm of the aggregates. -/
theorem parseMarked_aggregate {marker : UInt8} {n k : Nat} (hk : perCount marker = some k)
    (hn : (n : Int) ≤ i64Max) (parse : Bytes → Parsed Value) (buf : Bytes) (after : Nat) :
    parseMarked parse buf marker (digitBytes n) after =
      match parseItems parse (n * k) (buf.drop after) with
      | .incomplete => .incomplete
      | .panicked => .panicked
      | .value items consumed => .value (.array items) (after + consumed) := by
  obtain ⟨hmarker, hitems⟩ := perCount_items (n := n) hk
  have hcount : (if marker = 37 then (n : Int).toNat * 2 else (n : Int).toNat) = n * k := by
    rw [Int.toNat_natCast]
    exact hitems
  have hpos : ¬ (n : Int) < 0 := by omega
  unfold parseMarked
  dsimp only
  rw [parseCount_digits hn]
  dsimp only
  rw [if_neg hpos, hcount]
  rcases hmarker with rfl | rfl | rfl | rfl <;> rfl

theorem length_line (marker : UInt8) (line : Bytes) :
    (marker :: (line ++ crlf)).length = line.length + 3 := by simp [crlf]

/-- A frame that is one line, whole and in parts. -/
theorem parse_oneLine {marker : UInt8} {line : Bytes} {v : Value} (h : 13 ∉ line)
    (hmarked : ∀ parse buf after, parseMarked parse buf marker line after = .value v after)
    {depth : Nat} (rest : Bytes) (hdepth : (marker :: (line ++ crlf)).length ≤ depth) :
    parseWithin depth (marker :: (line ++ crlf) ++ rest) =
      .value v (marker :: (line ++ crlf)).length := by
  cases depth with
  | zero => cases hdepth
  | succ depth => rw [parse_line h, hmarked, length_line]

theorem marked_bulk {payload rest : Bytes} (h : (payload.length : Int) ≤ i64Max)
    (parse : Bytes → Parsed Value) :
    parseMarked parse (36 :: (digitBytes payload.length ++ crlf) ++ (payload ++ crlf ++ rest)) 36
        (digitBytes payload.length) ((digitBytes payload.length).length + 3) =
      .value (.bulk payload) ((digitBytes payload.length).length + 3 + payload.length + 2) := by
  have hlen : ¬ (36 :: (digitBytes payload.length ++ crlf) ++ (payload ++ crlf ++ rest)).length <
      (digitBytes payload.length).length + 3 + (payload.length : Int).toNat + 2 := by
    simp only [List.length_append, crlf, List.length_cons, Int.toNat_natCast]
    omega
  have hpos : ¬ (payload.length : Int) < 0 := by omega
  have hmarked : parseMarked parse (36 :: (digitBytes payload.length ++ crlf) ++ (payload ++ crlf ++ rest))
      36 (digitBytes payload.length) ((digitBytes payload.length).length + 3) =
      .value (.bulk (((36 :: (digitBytes payload.length ++ crlf) ++ (payload ++ crlf ++ rest)).drop
        ((digitBytes payload.length).length + 3)).take (payload.length : Int).toNat))
        ((digitBytes payload.length).length + 3 + (payload.length : Int).toNat + 2) := by
    unfold parseMarked
    dsimp only
    rw [parseCount_digits h]
    dsimp only
    rw [if_neg hpos, if_neg hlen]
    rfl
  rw [hmarked, drop_line, Int.toNat_natCast, List.append_assoc, List.take_left]

theorem marked_bulk_cut {n : Nat} {body : Bytes} (h : (n : Int) ≤ i64Max)
    (hshort : body.length < n + 2) (parse : Bytes → Parsed Value) :
    parseMarked parse (36 :: (digitBytes n ++ crlf) ++ body) 36 (digitBytes n)
      ((digitBytes n).length + 3) = .incomplete := by
  have hlen : (36 :: (digitBytes n ++ crlf) ++ body).length <
      (digitBytes n).length + 3 + (n : Int).toNat + 2 := by
    simp only [List.length_append, List.length_cons, List.length_nil, Int.toNat_natCast, crlf]
    omega
  have hpos : ¬ (n : Int) < 0 := by omega
  unfold parseMarked
  dsimp only
  rw [parseCount_digits h]
  dsimp only
  rw [if_neg hpos, if_pos hlen]
  rfl

/-- **A whole frame is read as the value seen in it**, whatever follows. -/
theorem parse_reads {w : Bytes} {v : Value} (h : Reads w v) : ∀ {depth : Nat} (rest : Bytes),
    w.length ≤ depth → parseWithin depth (w ++ rest) = .value v w.length := by
  induction h with
  | simple ht =>
    intro depth rest
    refine parse_oneLine ht (fun parse buf after => ?_) rest
    unfold parseMarked
    rw [Text.fromUtf8Lossy_utf8]
    rfl
  | error ht =>
    intro depth rest
    refine parse_oneLine ht (fun parse buf after => ?_) rest
    unfold parseMarked
    rw [Text.fromUtf8Lossy_utf8]
    rfl
  | int hn =>
    intro depth rest
    refine parse_oneLine (not_mem_showIntBytes _) (fun parse buf after => ?_) rest
    unfold parseMarked
    dsimp only
    rw [parseCount_int hn]
    rfl
  | null => exact fun rest => parse_oneLine (List.not_mem_nil) (fun _ _ _ => rfl) rest
  | nullBulk =>
    intro depth rest
    refine parse_oneLine not_mem_null (fun parse buf after => ?_) rest
    unfold parseMarked
    dsimp only
    rw [parseCount_null]
    rfl
  | nullArray =>
    intro depth rest
    refine parse_oneLine not_mem_null (fun parse buf after => ?_) rest
    unfold parseMarked
    dsimp only
    rw [parseCount_null]
    rfl
  | score hline => exact fun rest => parse_oneLine hline (fun _ _ _ => rfl) rest
  | @bulk payload hlen =>
    intro depth rest hdepth
    cases depth with
    | zero => simp at hdepth
    | succ depth =>
      rw [List.append_assoc, parse_line (not_mem_digitBytes _), marked_bulk hlen]
      simp only [List.length_append, crlf, List.length_cons, List.length_nil]
      congr 1
  | @aggregate marker n k parts hk hn hlen _ ih =>
    intro depth rest hdepth
    cases depth with
    | zero => simp at hdepth
    | succ depth =>
      have hparts : ∀ p ∈ parts, ∀ rest, parseWithin depth (p.1 ++ rest) = .value p.2 p.1.length := by
        intro p hp rest
        refine ih p hp rest ?_
        have hle : p.1.length ≤ ((parts.map Prod.fst).flatten).length :=
          (List.sublist_flatten_of_mem (List.mem_map_of_mem hp)).length_le
        rw [List.length_append, length_line] at hdepth
        omega
      rw [List.append_assoc, parse_line (not_mem_digitBytes _), parseMarked_aggregate hk hn, drop_line,
        ← hlen, parseItems_parts hparts, List.length_append, length_line]

/-- **A part of a frame is waited for.** -/
theorem parse_cut {w : Bytes} {v : Value} (h : Reads w v) : ∀ {depth : Nat} {t : Bytes},
    t.length ≤ depth → t <+: w → t ≠ w → parseWithin depth t = .incomplete := by
  have hline : ∀ {marker : UInt8} {line : Bytes} {depth : Nat} {t : Bytes}, 13 ∉ line →
      t <+: marker :: (line ++ crlf) → t ≠ marker :: (line ++ crlf) →
      parseWithin depth t = .incomplete := by
    intro marker line depth t hcr ht hne
    cases depth with
    | zero => rfl
    | succ depth => exact parse_line_cut hcr depth ht hne
  induction h with
  | simple ht => exact fun _ => hline ht
  | error ht => exact fun _ => hline ht
  | int hn => exact fun _ => hline (not_mem_showIntBytes _)
  | null => exact fun _ => hline List.not_mem_nil
  | nullBulk => exact fun _ => hline not_mem_null
  | nullArray => exact fun _ => hline not_mem_null
  | score hcr => exact fun _ => hline hcr
  | @bulk payload hlen =>
    intro depth t _ ht hne
    rcases cut_append ht hne with ⟨hfirst, hne⟩ | ⟨u, rfl, hu, hne⟩
    · exact hline (not_mem_digitBytes _) hfirst hne
    · cases depth with
      | zero => rfl
      | succ depth =>
        have hshort : u.length < payload.length + 2 := by
          have hlt := hu.length_le.lt_of_ne fun h => hne (hu.eq_of_length h)
          simpa [crlf] using hlt
        rw [parse_line (not_mem_digitBytes _), marked_bulk_cut hlen hshort]
  | @aggregate marker n k parts hk hn hlen hreads ih =>
    intro depth t hdepth ht hne
    rcases cut_append ht hne with ⟨hfirst, hne⟩ | ⟨u, rfl, hu, hne⟩
    · exact hline (not_mem_digitBytes _) hfirst hne
    · cases depth with
      | zero => rfl
      | succ depth =>
        rw [List.length_append, length_line] at hdepth
        rw [parse_line (not_mem_digitBytes _), parseMarked_aggregate hk hn, drop_line, ← hlen,
          parseItems_cut ?_ ?_ hu hne]
        · intro p hp rest hinfix
          have hle := hinfix.length_le
          rw [List.length_append] at hle
          exact parse_reads (hreads p hp) rest (by omega)
        · intro p hp v hinfix
          have hle := hinfix.length_le
          exact ih p hp (by omega)

/-! ## Replies -/

/-- An error message as a client sees it. -/
def flatChars (message : String) : List Char :=
  message.toList.map fun c => if c = '\r' ∨ c = '\n' then ' ' else c

/-- The members and scores, as a client sees them. -/
def seenScored (protocol : Protocol) (pairs : List (Bytes × F64)) : List Value :=
  match protocol with
  | .resp3 => pairs.map fun p => .array [.bulk p.1, .bulk (formatF64 p.2)]
  | .resp2 => pairs.flatMap fun p => [.bulk p.1, .bulk (formatF64 p.2)]

mutual

/-- What a client sees of a reply. -/
def seen (protocol : Protocol) : Reply → Value
  | .simple text => .simple text.toList
  | .error message => .error (flatChars message)
  | .integer n => .int n
  | .bulk payload => .bulk payload
  | .nil => .nil
  | .nilArray => match protocol with
    | .resp3 => .nil
    | .resp2 => .nilArray
  | .array items => .array (seenItems protocol items)
  | .set items => .array (seenItems protocol items)
  | .push items => .array (seenItems protocol items)
  | .map pairs => .array (seenPairs protocol pairs)
  | .double value => .bulk (formatF64 value)
  | .scoredMembers pairs => .array (seenScored protocol pairs)

/-- The items of an aggregate. -/
def seenItems (protocol : Protocol) : List Reply → List Value
  | [] => []
  | item :: items => seen protocol item :: seenItems protocol items

/-- The keys and values of a map, in a row. -/
def seenPairs (protocol : Protocol) : List (Reply × Reply) → List Value
  | [] => []
  | (key, value) :: pairs => seen protocol key :: seen protocol value :: seenPairs protocol pairs

end

end Common

/-- A score is written in so many bytes as a count can say. -/
def scoreFits (value : F64) : Prop := ((formatF64 value).length : Int) ≤ i64Max

mutual

/-- The numbers and lengths in a reply are numbers of `i64`. -/
def Reply.Fits : Reply → Prop
  | .integer n => i64Min ≤ n ∧ n ≤ i64Max
  | .bulk payload => (payload.length : Int) ≤ i64Max
  | .array items => (items.length : Int) ≤ i64Max ∧ Reply.FitsItems items
  | .set items => (items.length : Int) ≤ i64Max ∧ Reply.FitsItems items
  | .push items => (items.length : Int) ≤ i64Max ∧ Reply.FitsItems items
  | .map pairs => ((pairs.length * 2 : Nat) : Int) ≤ i64Max ∧ Reply.FitsPairs pairs
  | .double value => scoreFits value
  | .scoredMembers pairs => ((pairs.length * 2 : Nat) : Int) ≤ i64Max ∧
      ∀ p ∈ pairs, (p.1.length : Int) ≤ i64Max ∧ scoreFits p.2
  | _ => True

@[inherit_doc Reply.Fits]
def Reply.FitsItems : List Reply → Prop
  | [] => True
  | item :: items => item.Fits ∧ Reply.FitsItems items

@[inherit_doc Reply.Fits]
def Reply.FitsPairs : List (Reply × Reply) → Prop
  | [] => True
  | (key, value) :: pairs => key.Fits ∧ value.Fits ∧ Reply.FitsPairs pairs

end

namespace Common

/-- So many frames in a row are seen as these values. -/
def ReadsAll (n : Nat) (w : Bytes) (vs : List Value) : Prop :=
  ∃ parts : List (Bytes × Value), (parts.map Prod.fst).flatten = w ∧ parts.map Prod.snd = vs ∧
    parts.length = n ∧ ∀ p ∈ parts, Reads p.1 p.2

theorem readsAll_nil : ReadsAll 0 [] [] := ⟨[], rfl, rfl, rfl, by simp⟩

theorem Reads.append {n : Nat} {w w' : Bytes} {v : Value} {vs : List Value} (h : Reads w v)
    (h' : ReadsAll n w' vs) : ReadsAll (n + 1) (w ++ w') (v :: vs) := by
  obtain ⟨parts, rfl, rfl, rfl, hparts⟩ := h'
  refine ⟨(w, v) :: parts, rfl, rfl, rfl, ?_⟩
  intro p hp
  rcases List.mem_cons.mp hp with rfl | hp
  · exact h
  · exact hparts p hp

theorem ReadsAll.aggregate {marker : UInt8} {n k c : Nat} {w : Bytes} {vs : List Value}
    (h : ReadsAll c w vs) (hk : perCount marker = some k) (hn : (n : Int) ≤ i64Max)
    (hc : c = n * k) : Reads (countLine marker n ++ w) (.array vs) := by
  obtain ⟨parts, rfl, rfl, hlen, hparts⟩ := h
  exact .aggregate hk hn (hlen.trans hc) hparts

theorem reads_bulk {payload : Bytes} (h : (payload.length : Int) ≤ i64Max) :
    Reads (encodeBulk payload) (.bulk payload) := by
  have hframe := Reads.bulk h
  simpa [encodeBulk, countLine, digitBytes] using hframe

theorem reads_double {value : F64} (h : scoreFits value) (protocol : Protocol) :
    Reads (encodeDouble value protocol) (.bulk (formatF64 value)) := by
  cases protocol with
  | resp2 => exact reads_bulk h
  | resp3 => exact .score (not_mem_formatF64 value)

/-- Outside ASCII no byte looks like a line break. -/
theorem flat_char (c : Char) : ((String.utf8EncodeChar c).map fun byte =>
    if byte = 13 ∨ byte = 10 then 32 else byte) =
      String.utf8EncodeChar (if c = '\r' ∨ c = '\n' then ' ' else c) := by
  by_cases hascii : c.toNat < 0x80
  · have hback : ∀ d : Char, c.toNat = d.toNat ↔ c = d := fun d => Char.toNat_inj
    have hbyte : ∀ n, n < 256 → (UInt8.ofNat c.toNat = UInt8.ofNat n ↔ c.toNat = n) := by
      intro n hn
      rw [← UInt8.toNat_inj, Text.toNat_ofNat_byte (by omega), Text.toNat_ofNat_byte hn]
    rw [Text.utf8EncodeChar_ascii hascii, List.map_singleton]
    have hcr : UInt8.ofNat c.toNat = 13 ↔ c = '\r' := (hbyte 13 (by decide)).trans (hback '\r')
    have hlf : UInt8.ofNat c.toNat = 10 ↔ c = '\n' := (hbyte 10 (by decide)).trans (hback '\n')
    by_cases hbreak : c = '\r' ∨ c = '\n'
    · rw [if_pos ((or_congr hcr hlf).mpr hbreak), if_pos hbreak]
      rfl
    · rw [if_neg (fun h => hbreak ((or_congr hcr hlf).mp h)), if_neg hbreak,
        Text.utf8EncodeChar_ascii hascii]
  · have hhigh : ∀ b ∈ String.utf8EncodeChar c, (if b = 13 ∨ b = 10 then 32 else b) = b := by
      intro b hb
      have hle := Text.utf8EncodeChar_high (by omega) hb
      refine if_neg ?_
      rintro (rfl | rfl)
      · exact absurd hle (by decide)
      · exact absurd hle (by decide)
    have hc : ¬ (c = '\r' ∨ c = '\n') := by
      rintro (rfl | rfl)
      · exact hascii (by decide)
      · exact hascii (by decide)
    rw [if_neg hc]
    exact (List.map_congr_left hhigh).trans (List.map_id _)

theorem flatBytes_eq (message : String) : flatBytes message = Text.utf8 (flatChars message) := by
  unfold flatBytes flatChars Text.bytes Text.utf8
  rw [List.map_flatMap, List.flatMap_map]
  exact List.flatMap_congr fun c _ => flat_char c

theorem reads_scored {pairs : List (Bytes × F64)}
    (h : ∀ p ∈ pairs, (p.1.length : Int) ≤ i64Max ∧ scoreFits p.2) (protocol : Protocol) :
    ReadsAll (match protocol with | .resp3 => pairs.length | .resp2 => pairs.length * 2)
      (encodeScored protocol pairs) (seenScored protocol pairs) := by
  induction pairs with
  | nil => cases protocol <;> exact readsAll_nil
  | cons pair pairs ih =>
    obtain ⟨member, score⟩ := pair
    obtain ⟨hmember, hscore⟩ := h (member, score) (by simp)
    have hrest := ih fun p hp => h p (by simp [hp])
    cases protocol with
    | resp2 =>
      have hmore := (reads_bulk hmember).append ((reads_double hscore .resp2).append hrest)
      simpa [encodeScored, seenScored, Nat.succ_mul] using hmore
    | resp3 =>
      have hpair : Reads (countLine 42 2 ++ (encodeBulk member ++ (encodeDouble score .resp3 ++ [])))
          (.array [.bulk member, .bulk (formatF64 score)]) :=
        ((reads_bulk hmember).append ((reads_double hscore .resp3).append readsAll_nil)).aggregate rfl
          (by decide) rfl
      have hmore := hpair.append hrest
      simpa [encodeScored, seenScored] using hmore

mutual

/-- **Every reply is encoded to a frame that is seen as what it means.** -/
theorem reads_encode (protocol : Protocol) : ∀ {r : Reply}, r.OneLine → r.Fits →
    Reads (encode protocol r) (seen protocol r)
  | .simple text, h, _ => .simple h.1
  | .error message, _, _ => by
    have hline : 13 ∉ Text.utf8 (flatChars message) := by
      rw [← flatBytes_eq]
      exact not_mem_flatBytes message
    have hframe := Reads.error hline
    rw [← flatBytes_eq] at hframe
    exact hframe
  | .integer n, _, h => .int h
  | .bulk payload, _, h => reads_bulk h
  | .nil, _, _ => by
    cases protocol with
    | resp2 => exact .nullBulk
    | resp3 => exact .null
  | .nilArray, _, _ => by
    cases protocol with
    | resp2 => exact .nullArray
    | resp3 => exact .null
  | .array items, h, hfits =>
    (reads_items protocol items h hfits.2).aggregate rfl hfits.1 (Nat.mul_one _).symm
  | .set items, h, hfits => by
    cases protocol with
    | resp2 => exact (reads_items .resp2 items h hfits.2).aggregate rfl hfits.1 (Nat.mul_one _).symm
    | resp3 => exact (reads_items .resp3 items h hfits.2).aggregate rfl hfits.1 (Nat.mul_one _).symm
  | .push items, h, hfits => by
    cases protocol with
    | resp2 => exact (reads_items .resp2 items h hfits.2).aggregate rfl hfits.1 (Nat.mul_one _).symm
    | resp3 => exact (reads_items .resp3 items h hfits.2).aggregate rfl hfits.1 (Nat.mul_one _).symm
  | .map pairs, h, hfits => by
    have hpairs := reads_pairs protocol pairs h hfits.2
    have hlen := hfits.1
    cases protocol with
    | resp2 => exact hpairs.aggregate rfl hlen (Nat.mul_one _).symm
    | resp3 => exact hpairs.aggregate rfl (by omega) rfl
  | .double value, _, h => reads_double h protocol
  | .scoredMembers pairs, _, hfits => by
    have hscored := reads_scored hfits.2 protocol
    have hlen := hfits.1
    cases protocol with
    | resp2 => exact hscored.aggregate rfl hlen (Nat.mul_one _).symm
    | resp3 => exact hscored.aggregate rfl (by omega) (Nat.mul_one _).symm

theorem reads_items (protocol : Protocol) : ∀ (items : List Reply), Reply.OneLineItems items →
    Reply.FitsItems items → ReadsAll items.length (encodeItems protocol items) (seenItems protocol items)
  | [], _, _ => readsAll_nil
  | _ :: items, h, hfits =>
    (reads_encode protocol h.1 hfits.1).append (reads_items protocol items h.2 hfits.2)

theorem reads_pairs (protocol : Protocol) : ∀ (pairs : List (Reply × Reply)),
    Reply.OneLinePairs pairs → Reply.FitsPairs pairs →
      ReadsAll (pairs.length * 2) (encodePairs protocol pairs) (seenPairs protocol pairs)
  | [], _, _ => readsAll_nil
  | (key, value) :: pairs, h, hfits => by
    have hmore := (reads_encode protocol h.1 hfits.1).append
      ((reads_encode protocol h.2.1 hfits.2.1).append (reads_pairs protocol pairs h.2.2 hfits.2.2))
    simpa [encodePairs, seenPairs, Nat.succ_mul] using hmore

end

/-! ## A stream of replies -/

theorem Reads.ne_nil {w : Bytes} {v : Value} (h : Reads w v) : w ≠ [] := by
  cases h <;> simp

/-- One reply is read as soon as its frame is there, and not sooner. -/
theorem readValue_frame {w : Bytes} {v : Value} (h : Reads w v) {rest : Bytes} :
    ∀ {chunks : List Bytes} {buffer : Bytes}, (∀ chunk ∈ chunks, chunk ≠ []) →
      buffer ++ chunks.flatten = w ++ rest → ∃ buffer' chunks',
        readValue buffer chunks = .done v buffer' chunks' ∧ buffer' ++ chunks'.flatten = rest ∧
          chunks' <:+ chunks := by
  intro chunks
  induction chunks with
  | nil =>
    intro buffer _ hstream
    rw [List.flatten_nil, List.append_nil] at hstream
    refine ⟨rest, [], ?_, List.append_nil rest, List.suffix_rfl⟩
    unfold readValue parse
    rw [hstream, parse_reads h rest (by rw [List.length_append]; omega)]
    dsimp only
    rw [List.drop_left]
  | cons chunk chunks ih =>
    intro buffer hchunks hstream
    by_cases hwhole : w <+: buffer
    · obtain ⟨u, rfl⟩ := hwhole
      refine ⟨u, chunk :: chunks, ?_, ?_, List.suffix_rfl⟩
      · unfold readValue parse
        rw [parse_reads h u (by rw [List.length_append]; omega)]
        dsimp only
        rw [List.drop_left]
      · rw [List.append_assoc] at hstream
        exact List.append_cancel_left hstream
    · have hpart : buffer <+: w := by
        have hbuffer : buffer <+: w ++ rest := ⟨_, hstream⟩
        exact (List.prefix_or_prefix_of_prefix hbuffer (List.prefix_append w rest)).resolve_right hwhole
      have hne : buffer ≠ w := by
        rintro rfl
        exact hwhole (List.prefix_refl _)
      have hstream' : (buffer ++ chunk) ++ chunks.flatten = w ++ rest := by
        rw [List.append_assoc, ← List.flatten_cons]
        exact hstream
      obtain ⟨buffer', chunks', hread, hleft, hsuffix⟩ :=
        ih (fun c hc => hchunks c (by simp [hc])) hstream'
      refine ⟨buffer', chunks', ?_, hleft, hsuffix.trans (List.suffix_cons chunk chunks)⟩
      unfold readValue parse
      rw [parse_cut h (by omega) hpart hne]
      dsimp only
      rw [List.isEmpty_eq_false_iff.mpr (hchunks chunk (by simp))]
      exact hread

/-- **A stream of replies is read back**, in whatever pieces it arrives: the client sees each reply
as what it means, in order, and leaves what follows them. -/
theorem readMany_stream (frames : List (Protocol × Reply))
    (h : ∀ p ∈ frames, p.2.OneLine ∧ p.2.Fits) (rest : Bytes) : ∀ (chunks : List Bytes) (buffer : Bytes),
      (∀ chunk ∈ chunks, chunk ≠ []) →
      buffer ++ chunks.flatten = (frames.flatMap fun p => encode p.1 p.2) ++ rest →
      ∃ buffer' chunks', readMany frames.length buffer chunks =
        .done (frames.map fun p => seen p.1 p.2) buffer' chunks' ∧ buffer' ++ chunks'.flatten = rest := by
  induction frames with
  | nil => exact fun chunks buffer _ hstream => ⟨buffer, chunks, rfl, hstream⟩
  | cons p frames ih =>
    intro chunks buffer hchunks hstream
    obtain ⟨hone, hfits⟩ := h p (by simp)
    rw [List.flatMap_cons, List.append_assoc] at hstream
    obtain ⟨buffer₁, chunks₁, hread, hleft, hsuffix⟩ :=
      readValue_frame (reads_encode p.1 hone hfits) hchunks hstream
    obtain ⟨buffer₂, chunks₂, hmany, hrest⟩ := ih (fun q hq => h q (by simp [hq])) chunks₁ buffer₁
      (fun c hc => hchunks c (hsuffix.subset hc)) hleft
    refine ⟨buffer₂, chunks₂, ?_, hrest⟩
    rw [List.length_cons]
    unfold readMany
    rw [hread]
    dsimp only
    rw [hmany]
    rfl

/-- A nested reply and an error, in pieces that keep to no boundary. -/
theorem readMany_stream_pieces : ∃ buffer' chunks',
    readMany 2 [] [Text.bytes "%1\r", Text.bytes "\n$1\r\na\r\n*2\r\n:1", Text.bytes "\r\n_\r\n-ERR",
        Text.bytes " x\r\n+"] =
      .done [.array [.bulk (Text.bytes "a"), .array [.int 1, .nil]], .error "ERR x".toList] buffer' chunks' ∧
      buffer' ++ chunks'.flatten = Text.bytes "+" := by
  have hread := readMany_stream
    [(.resp3, .map [(.text "a", .array [.integer 1, .nil])]), (.resp2, .error "ERR x")]
    (by
      intro p hp
      simp only [List.mem_cons, List.not_mem_nil, or_false] at hp
      rcases hp with rfl | rfl
      · exact ⟨⟨trivial, ⟨trivial, trivial, trivial⟩, trivial⟩,
          by decide, (by decide +kernel : ((Text.bytes "a").length : Int) ≤ i64Max),
          ⟨by decide, ⟨by decide, by decide⟩, trivial, trivial⟩, trivial⟩
      · exact ⟨trivial, trivial⟩)
    (Text.bytes "+") [Text.bytes "%1\r", Text.bytes "\n$1\r\na\r\n*2\r\n:1", Text.bytes "\r\n_\r\n-ERR",
        Text.bytes " x\r\n+"] [] (by decide +kernel) (by decide +kernel)
  exact hread

end Common

end Klyro
