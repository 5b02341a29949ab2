import Klyro.Resp.Request

/-!
# What `parse_request` accepts

* `Line`, `readLine_line`, `line_of_readLine` — a line and its end, CRLF or LF.
* `quotedLine` — a bare line with every argument between double quotes; `parseRequest_quoted` reads it
  back.
* `Groups`, `Framed` — an array of bulk strings; `accepted_exact` says which bytes are one.
-/

set_option autoImplicit false

namespace Klyro

/-! ## Lines -/

/-- A line and what ends it. -/
structure Line (header eol : Bytes) : Prop where
  closed : (10 : UInt8) ∉ header
  ends : eol = [13, 10] ∨ (eol = [10] ∧ header.getLast? ≠ some 13)

/-- The next line and how many bytes it takes with its end. -/
def lineOf (l : Bytes) : Option (Bytes × Nat) :=
  (l.findIdx? (· == 10)).map fun i =>
    (if 0 < i ∧ l[i - 1]? = some 13 then l.take (i - 1) else l.take i, i + 1)

variable {buf header eol rest : Bytes} {start : Nat}

theorem slice_drop {first last : Nat} (hfirst : first ≤ last)
    (hlast : start + last ≤ buf.length) :
    slice buf (start + first) (start + last) = some (((buf.drop start).take last).drop first) := by
  rw [slice_of_le (by omega) hlast, List.take_drop, List.drop_drop]

theorem readLine_eq (hstart : start ≤ buf.length) :
    readLine buf start = some ((lineOf (buf.drop start)).map fun p => (p.1, p.2 + start)) := by
  unfold readLine lineOf
  rw [slice_of_le hstart le_rfl]
  simp only [List.take_length, Option.bind_eq_bind, Option.bind_some]
  cases hi : (buf.drop start).findIdx? (· == 10) with
  | none => rfl
  | some i =>
    obtain ⟨hlt, -⟩ := List.findIdx?_eq_some_iff_findIdx_eq.mp hi
    rw [List.length_drop] at hlt
    have hslice : ∀ n ≤ i, slice buf start (start + n) = some ((buf.drop start).take n) := fun n hn => by
      have := @slice_drop buf start 0 n (Nat.zero_le _) (by omega)
      rwa [Nat.add_zero, List.drop_zero] at this
    dsimp only [Option.map_some]
    by_cases hpos : 0 < i
    · have hbefore : buf[i + start - 1]? = (buf.drop start)[i - 1]? := by
        rw [List.getElem?_drop]
        congr 1
        omega
      obtain ⟨b, hb⟩ := byte_of_lt buf (show i + start - 1 < buf.length by omega)
      rw [if_pos (show start < i + start by omega), hb]
      rw [hb] at hbefore
      simp only [Option.bind_some, ← hbefore, Option.some.injEq]
      by_cases hcr : b = 13
      · rw [if_pos hcr, if_pos ⟨hpos, hcr⟩, show i + start - 1 = start + (i - 1) by omega,
          hslice _ (by omega)]
        simp only [Option.bind_some]
        rw [show i + start + 1 = i + 1 + start by omega]
        rfl
      · rw [if_neg hcr, if_neg fun h => hcr h.2, Nat.add_comm i start, hslice _ le_rfl]
        simp only [Option.bind_some]
        rw [show start + i + 1 = i + 1 + start by omega]
        rfl
    · rw [if_neg (show ¬ start < i + start by omega), if_neg fun h => hpos h.1, Nat.add_comm i start,
        hslice _ le_rfl]
      simp only [Option.bind_some]
      rw [show start + i + 1 = i + 1 + start by omega]
      rfl

theorem lineOf_line (h : Line header eol) :
    lineOf (header ++ (eol ++ rest)) = some (header, header.length + eol.length) := by
  have hnone : header.findIdx? (· == 10) = none := by
    rw [List.findIdx?_eq_none_iff]
    intro b hb
    rw [beq_eq_false_iff_ne]
    rintro rfl
    exact h.closed hb
  unfold lineOf
  rcases h.ends with rfl | ⟨rfl, hlast⟩
  · have hfind : (header ++ ([13, 10] ++ rest)).findIdx? (· == 10) = some (header.length + 1) := by
      rw [List.findIdx?_append, hnone]
      simp [List.findIdx?_cons, Nat.add_comm]
    have hcr : (header ++ ([13, 10] ++ rest))[header.length]? = some 13 := by
      rw [List.getElem?_append_right le_rfl, Nat.sub_self]
      rfl
    rw [hfind, Option.map_some, Nat.add_sub_cancel, if_pos ⟨Nat.succ_pos _, hcr⟩, List.take_left]
    rfl
  · have hfind : (header ++ ([10] ++ rest)).findIdx? (· == 10) = some header.length := by
      rw [List.findIdx?_append, hnone]
      simp [List.findIdx?_cons]
    rw [hfind, Option.map_some, if_neg, List.take_left]
    · rfl
    · rintro ⟨hpos, hcr⟩
      rw [List.getElem?_append_left (by omega), ← List.getLast?_eq_getElem?] at hcr
      exact hlast hcr

/-- **A line is read**, whatever stands before it and after it. -/
theorem readLine_line (h : Line header eol) (front rest : Bytes) :
    readLine (front ++ (header ++ (eol ++ rest))) front.length =
      some (some (header, header.length + eol.length + front.length)) := by
  rw [readLine_eq (by rw [List.length_append]; omega), List.drop_left, lineOf_line h]
  rfl

theorem line_of_lineOf {l : Bytes} {used : Nat} (h : lineOf l = some (header, used)) :
    ∃ eol rest, Line header eol ∧ l = header ++ (eol ++ rest) ∧ used = header.length + eol.length := by
  unfold lineOf at h
  obtain ⟨i, hi, hp⟩ := Option.map_eq_some_iff.mp h
  obtain ⟨hlt, hbyte, hbefore⟩ := List.findIdx?_eq_some_iff_getElem.mp hi
  have hnewline : l[i] = 10 := eq_of_beq hbyte
  have hclosed : ∀ n ≤ i, (10 : UInt8) ∉ l.take n := fun n hn hmem => by
    obtain ⟨j, hj, hget⟩ := List.getElem_of_mem hmem
    rw [List.length_take] at hj
    rw [List.getElem_take] at hget
    exact hbefore j (by omega) (by rw [hget]; rfl)
  have hsplit : l = l.take i ++ (10 :: l.drop (i + 1)) := by
    rw [← hnewline, List.getElem_cons_drop, List.take_append_drop]
  by_cases hcr : 0 < i ∧ l[i - 1]? = some 13
  · rw [if_pos hcr, Prod.mk.injEq] at hp
    obtain ⟨rfl, rfl⟩ := hp
    obtain ⟨hpos, hcr⟩ := hcr
    have hlast : l.take i = l.take (i - 1) ++ [13] := by
      obtain ⟨hlt', hget⟩ := List.getElem?_eq_some_iff.mp hcr
      have hsucc : i = i - 1 + 1 := by omega
      conv_lhs => rw [hsucc]
      rw [List.take_succ_eq_append_getElem hlt', hget]
    refine ⟨[13, 10], l.drop (i + 1), ⟨hclosed _ (by omega), .inl rfl⟩, ?_, ?_⟩
    · conv_lhs => rw [hsplit, hlast]
      rw [List.append_assoc]
      rfl
    · rw [List.length_take]
      simp only [List.length_cons, List.length_nil]
      omega
  · rw [if_neg hcr, Prod.mk.injEq] at hp
    obtain ⟨rfl, rfl⟩ := hp
    refine ⟨[10], l.drop (i + 1), ⟨hclosed _ le_rfl, .inr ⟨rfl, fun hlast => hcr ?_⟩⟩, hsplit, ?_⟩
    · rw [List.getLast?_eq_getElem?, List.length_take, Nat.min_eq_left (by omega)] at hlast
      have hpos : 0 < i := by
        by_contra hzero
        rw [show i = 0 by omega, List.take_zero] at hlast
        cases hlast
      rw [List.getElem?_take_of_lt (by omega)] at hlast
      exact ⟨hpos, hlast⟩
    · rw [List.length_take]
      simp only [List.length_cons, List.length_nil]
      omega

/-- **What is read is a line.** -/
theorem line_of_readLine {next : Nat} (hstart : start ≤ buf.length)
    (h : readLine buf start = some (some (header, next))) :
    ∃ eol rest, Line header eol ∧ buf.drop start = header ++ (eol ++ rest) ∧
      next = header.length + eol.length + start := by
  rw [readLine_eq hstart, Option.some.injEq] at h
  obtain ⟨⟨header', used⟩, hline, hp⟩ := Option.map_eq_some_iff.mp h
  rw [Prod.mk.injEq] at hp
  obtain ⟨rfl, rfl⟩ := hp
  obtain ⟨eol, rest, hl, hdrop, hused⟩ := line_of_lineOf hline
  exact ⟨eol, rest, hl, hdrop, by rw [hused]⟩

/-! ## Bare lines -/

/-- A byte between double quotes. -/
def escapeByte (b : UInt8) : Bytes :=
  if b = 34 then [92, 34]
  else if b = 92 then [92, 92]
  else if b = 10 then [92, 110]
  else if b = 13 then [92, 114]
  else if b = 9 then [92, 116]
  else [b]

/-- An argument between double quotes. -/
def quoted (arg : Bytes) : Bytes := 34 :: (arg.flatMap escapeByte ++ [34])

/-- Quoted arguments with single spaces between them. -/
def quotedArgs : List Bytes → Bytes
  | [] => []
  | [arg] => quoted arg
  | arg :: argv => quoted arg ++ 32 :: quotedArgs argv

/-- A command as a bare line. -/
def quotedLine (argv : List Bytes) : Bytes := quotedArgs argv ++ [13, 10]

/-- **The escapes are undone**, byte by byte. -/
theorem splitLine_escaped (tail : Bytes) (argv : List Bytes) : ∀ (arg current : Bytes),
    splitLine (arg.flatMap escapeByte ++ tail) argv current true (some 34) =
      splitLine tail argv (current ++ arg) true (some 34)
  | [], current => by rw [List.flatMap_nil, List.nil_append, List.append_nil]
  | b :: arg, current => by
    have hstep : ∀ more, splitLine (escapeByte b ++ more) argv current true (some 34) =
        splitLine more argv (current ++ [b]) true (some 34) := fun more => by
      unfold escapeByte
      by_cases hquote : b = 34
      · rw [if_pos hquote, hquote]
        rfl
      rw [if_neg hquote]
      by_cases hbackslash : b = 92
      · rw [if_pos hbackslash, hbackslash]
        rfl
      rw [if_neg hbackslash]
      by_cases hnewline : b = 10
      · rw [if_pos hnewline, hnewline]
        rfl
      rw [if_neg hnewline]
      by_cases hreturn : b = 13
      · rw [if_pos hreturn, hreturn]
        rfl
      rw [if_neg hreturn]
      by_cases htab : b = 9
      · rw [if_pos htab, htab]
        rfl
      rw [if_neg htab]
      show splitLine (b :: more) argv current true (some 34) = _
      conv_lhs => unfold splitLine
      rw [if_neg fun h => hbackslash h.1, if_neg hquote]
    rw [List.flatMap_cons, List.append_assoc, hstep, splitLine_escaped tail argv arg, List.append_assoc]
    rfl

/-- One quoted argument. -/
theorem splitLine_quoted (arg tail : Bytes) (argv : List Bytes) :
    splitLine (quoted arg ++ tail) argv [] false none = splitLine tail argv arg true none := by
  show splitLine (34 :: (arg.flatMap escapeByte ++ [34] ++ tail)) argv [] false none = _
  rw [List.append_assoc]
  show splitLine (arg.flatMap escapeByte ++ ([34] ++ tail)) argv [] true (some 34) = _
  rw [splitLine_escaped, List.nil_append]
  show splitLine (34 :: tail) argv arg true (some 34) = _
  conv_lhs => unfold splitLine
  rw [if_neg (by decide), if_pos rfl]

/-- **The arguments come back**, by induction on how many there are. -/
theorem splitLine_quotedArgs : ∀ (argv done : List Bytes), argv ≠ [] →
    splitLine (quotedArgs argv) done [] false none = some (done ++ argv)
  | [], _, h => absurd rfl h
  | [arg], done, _ => by
    show splitLine (quoted arg) done [] false none = _
    have h := splitLine_quoted arg [] done
    rw [List.append_nil] at h
    rw [h]
    rfl
  | arg :: next :: argv, done, _ => by
    show splitLine (quoted arg ++ 32 :: quotedArgs (next :: argv)) done [] false none = _
    rw [splitLine_quoted]
    show splitLine (quotedArgs (next :: argv)) (done ++ [arg]) [] false none = _
    rw [splitLine_quotedArgs (next :: argv) _ (List.cons_ne_nil _ _), List.append_assoc]
    rfl

theorem newline_notMem_quoted (arg : Bytes) : (10 : UInt8) ∉ quoted arg := by
  have hbyte : ∀ b : UInt8, (10 : UInt8) ∉ escapeByte b := fun b hb => by
    unfold escapeByte at hb
    split at hb
    · simp at hb
    split at hb
    · simp at hb
    split at hb
    · simp at hb
    · rename_i hnewline
      split at hb
      · simp at hb
      split at hb
      · simp at hb
      · exact hnewline (List.mem_singleton.mp hb).symm
  intro h
  rcases List.mem_cons.mp h with h | h
  · cases h
  · rcases List.mem_append.mp h with h | h
    · obtain ⟨b, -, hb⟩ := List.mem_flatMap.mp h
      exact hbyte b hb
    · cases List.mem_singleton.mp h

theorem newline_notMem_quotedArgs : ∀ argv : List Bytes, (10 : UInt8) ∉ quotedArgs argv
  | [] => List.not_mem_nil
  | [arg] => newline_notMem_quoted arg
  | arg :: next :: argv => by
    intro h
    rcases List.mem_append.mp h with h | h
    · exact newline_notMem_quoted arg h
    · rcases List.mem_cons.mp h with h | h
      · cases h
      · exact newline_notMem_quotedArgs (next :: argv) h

/-- A bare line of quoted arguments starts with a quote. -/
theorem head_quotedArgs {argv : List Bytes} (h : argv ≠ []) : ∃ tail, quotedArgs argv = 34 :: tail := by
  rcases argv with _ | ⟨arg, _ | ⟨next, argv⟩⟩
  · exact absurd rfl h
  · exact ⟨_, rfl⟩
  · exact ⟨_, rfl⟩

/-- **Inline quoting round trip.**  A command written as a bare line, every argument between double
quotes and with its quotes, backslashes, newlines, carriage returns and tabs escaped, starts with a
quote and comes back from that line whatever follows; of the bytes exactly the line is used. -/
theorem parseRequest_quoted (argv : List Bytes) (hne : argv ≠ []) (rest : Bytes) (maxBulkLen : Nat) :
    (quotedLine argv).head? = some 34 ∧
      parseRequest (quotedLine argv ++ rest) maxBulkLen =
        some (.request argv (quotedLine argv).length) := by
  obtain ⟨tail, htail⟩ := head_quotedArgs hne
  have hline : readLine (quotedLine argv ++ rest) 0 =
      some (some (quotedArgs argv, (quotedLine argv).length)) := by
    have h := readLine_line ⟨newline_notMem_quotedArgs argv, .inl rfl⟩ [] rest
    unfold quotedLine
    rw [List.append_assoc, List.length_append]
    exact h
  have hhead : quotedLine argv ++ rest = 34 :: (tail ++ [13, 10] ++ rest) := by
    unfold quotedLine
    rw [htail]
    rfl
  refine ⟨by unfold quotedLine; rw [htail]; rfl, ?_⟩
  unfold parseRequest
  rw [show (quotedLine argv ++ rest).isEmpty = false by rw [hhead]; rfl,
    show (quotedLine argv ++ rest)[0]? = some 34 by rw [hhead]; rfl]
  show parseInlineRequest (quotedLine argv ++ rest) = _
  unfold parseInlineRequest
  rw [hline]
  simp only [Option.bind_eq_bind, Option.bind_some]
  rw [splitLine_quotedArgs argv [] hne, List.nil_append]
  rfl

/-- An empty argument, and one that ends in a backslash. -/
theorem parseRequest_quoted_backslash :
    (quotedLine [[], [65, 92]]).head? = some 34 ∧
      parseRequest (quotedLine [[], [65, 92]] ++ [10]) 512 = some (.request [[], [65, 92]] 10) :=
  parseRequest_quoted [[], [65, 92]] (List.cons_ne_nil _ _) [10] 512

/-! ## Arrays of bulk strings -/

/-- What `terminator_len` takes for the end of a payload when `following` comes after it: CRLF, or one
byte, whatever it is. -/
def Skipped (ending following : Bytes) : Prop :=
  ending = [13, 10] ∨ (∃ b, b ≠ 13 ∧ ending = [b]) ∨
    (ending = [13] ∧ ∃ c tail, c ≠ 10 ∧ following = c :: tail)

/-- The end of a line. -/
def LineEnd (ending _following : Bytes) : Prop := ending = [13, 10] ∨ ending = [10]

/-- `Groups ends max groups argv rest`: `groups` is one group for each argument, a length line, the
payload and what ends it, and `rest` comes after them. -/
inductive Groups (ends : Bytes → Bytes → Prop) (max : Nat) : Bytes → List Bytes → Bytes → Prop
  | nil (rest : Bytes) : Groups ends max [] [] rest
  | cons {header eol payload ending more rest : Bytes} {argv : List Bytes} (hline : Line header eol)
      (hlength : parseInteger header = some (payload.length : Int)) (hmax : payload.length ≤ max)
      (hend : ends ending (more ++ rest)) (h : Groups ends max more argv rest) :
      Groups ends max (36 :: (header ++ (eol ++ (payload ++ (ending ++ more))))) (payload :: argv) rest

/-- A whole array: its count line, and the groups. -/
def Framed (ends : Bytes → Bytes → Prop) (max : Nat) (frame : Bytes) (argv : List Bytes) (rest : Bytes) :
    Prop :=
  ∃ header eol groups, frame = 42 :: (header ++ (eol ++ groups)) ∧ Line header eol ∧
    parseInteger header = some (argv.length : Int) ∧ 0 < argv.length ∧ argv.length ≤ 1024 * 1024 ∧
    Groups ends max groups argv rest

theorem skipped_of_terminatorLen {pos n : Nat} (h : terminatorLen buf pos = some n)
    (hle : pos + n ≤ buf.length) :
    ∃ ending, ending.length = n ∧ buf.drop pos = ending ++ buf.drop (pos + n) ∧
      Skipped ending (buf.drop (pos + n)) := by
  unfold terminatorLen at h
  simp only [Option.bind_eq_bind, Option.bind_eq_some_iff] at h
  obtain ⟨b, hb, h⟩ := h
  obtain ⟨hlt, hget⟩ := List.getElem?_eq_some_iff.mp hb
  have hone : buf.drop pos = b :: buf.drop (pos + 1) := by
    rw [List.drop_eq_getElem_cons hlt, hget]
  by_cases hcr : b = 13
  · rw [if_pos hcr] at h
    obtain ⟨c, hc, h⟩ := Option.bind_eq_some_iff.mp h
    obtain ⟨hlt', hget'⟩ := List.getElem?_eq_some_iff.mp hc
    have htwo : buf.drop (pos + 1) = c :: buf.drop (pos + 2) := by
      rw [List.drop_eq_getElem_cons hlt', hget']
    by_cases hlf : c = 10
    · rw [if_pos hlf] at h
      cases h
      exact ⟨[13, 10], rfl, by rw [hone, htwo, hcr, hlf]; rfl, .inl rfl⟩
    · rw [if_neg hlf] at h
      cases h
      exact ⟨[13], rfl, by rw [hone, hcr]; rfl, .inr (.inr ⟨rfl, c, _, hlf, htwo⟩)⟩
  · rw [if_neg hcr] at h
    cases h
    exact ⟨[b], rfl, hone, .inr (.inl ⟨b, hcr, rfl⟩)⟩

theorem terminatorLen_skipped {ending following : Bytes} (h : Skipped ending following)
    (front : Bytes) :
    terminatorLen (front ++ (ending ++ following)) front.length = some ending.length ∧
      0 < ending.length := by
  have hnext : ∀ (b c : UInt8) (tail : Bytes), (front ++ (b :: c :: tail))[front.length + 1]? = some c :=
    fun b c tail => by
      rw [List.getElem?_append_right (Nat.le_add_right _ 1), Nat.add_sub_cancel_left]
      rfl
  have hfirst : ∀ (b : UInt8) (tail : Bytes), (front ++ (b :: tail))[front.length]? = some b :=
    fun b tail => by
      rw [List.getElem?_append_right le_rfl, Nat.sub_self]
      rfl
  unfold terminatorLen
  rcases h with rfl | ⟨b, hb, rfl⟩ | ⟨rfl, c, tail, hc, rfl⟩
  · refine ⟨?_, Nat.succ_pos _⟩
    show ((front ++ (13 :: 10 :: following))[front.length]?.bind fun b => _) = _
    rw [hfirst, Option.bind_some, if_pos rfl]
    show ((front ++ (13 :: 10 :: following))[front.length + 1]?.bind fun c => _) = _
    rw [hnext, Option.bind_some, if_pos rfl]
    rfl
  · refine ⟨?_, Nat.succ_pos _⟩
    show ((front ++ (b :: following))[front.length]?.bind fun b => _) = _
    rw [hfirst, Option.bind_some, if_neg hb]
    rfl
  · refine ⟨?_, Nat.succ_pos _⟩
    show ((front ++ (13 :: c :: tail))[front.length]?.bind fun b => _) = _
    rw [hfirst, Option.bind_some, if_pos rfl]
    show ((front ++ (13 :: c :: tail))[front.length + 1]?.bind fun c => _) = _
    rw [hnext, Option.bind_some, if_neg hc]
    rfl

/-- **What `parse_array_request` reads after the count is groups**, by induction on how many arguments
are still to come. -/
theorem groups_of_parseArgs {max : Nat} : ∀ (count pos : Nat) (argv argv' : List Bytes) (consumed : Nat),
    pos ≤ buf.length → parseArgs buf max count pos argv = some (.request argv' consumed) →
    ∃ groups args rest, buf.drop pos = groups ++ rest ∧ args.length = count ∧ argv' = argv ++ args ∧
      consumed = pos + groups.length ∧ Groups Skipped max groups args rest
  | 0, pos, argv, argv', consumed, _, h => by
    cases h
    exact ⟨[], [], buf.drop pos, rfl, rfl, (List.append_nil argv).symm, rfl, .nil _⟩
  | count + 1, pos, argv, argv', consumed, hpos, h => by
    unfold parseArgs at h
    split at h
    · cases h
    rename_i hend
    simp only [Option.bind_eq_bind, Option.bind_eq_some_iff] at h
    obtain ⟨marker, hmarker, h⟩ := h
    split at h
    · cases h
    rename_i hdollar
    obtain ⟨line, hline, h⟩ := Option.bind_eq_some_iff.mp h
    cases line with
    | none => cases h
    | some line =>
      obtain ⟨header, after⟩ := line
      dsimp only at h
      cases hint : parseInteger header with
      | none =>
        rw [hint] at h
        cases h
      | some len =>
        rw [hint] at h
        dsimp only at h
        split at h
        · cases h
        rename_i hbad
        split at h
        · cases h
        rename_i hfar
        cases hterm : terminatorLen buf (after + len.toNat) with
        | none =>
          rw [hterm] at h
          cases h
        | some terminator =>
          rw [hterm] at h
          dsimp only at h
          split at h
          · cases h
          rename_i hover
          obtain ⟨payload, hpayload, h⟩ := Option.bind_eq_some_iff.mp h
          obtain ⟨hlt, hget⟩ := List.getElem?_eq_some_iff.mp hmarker
          obtain ⟨eol, tail, heol, htail, hafter⟩ := line_of_readLine (by omega) hline
          obtain ⟨-, -, hslice⟩ := slice_some hpayload
          obtain ⟨ending, hlen, hending, hskipped⟩ := skipped_of_terminatorLen hterm (by omega)
          obtain ⟨groups, args, rest, hgroups, hcount, hargv, hconsumed, hread⟩ :=
            groups_of_parseArgs count _ _ _ _ (by omega) h
          rw [List.drop_take, Nat.add_sub_cancel_left] at hslice
          have hpayloadLen : payload.length = len.toNat := by
            rw [hslice, List.length_take, List.length_drop]
            omega
          have hheader : buf.drop pos = 36 :: (header ++ (eol ++ tail)) := by
            rw [List.drop_eq_getElem_cons hlt, hget, not_not.mp hdollar, htail]
          have hdrop : tail = payload ++ buf.drop (after + len.toNat) := by
            have htail' : tail = buf.drop after := by
              have hsplit := congrArg (List.drop (header.length + eol.length)) htail
              rw [List.drop_drop, ← List.append_assoc, ← List.length_append, List.drop_left] at hsplit
              rw [← hsplit, hafter, List.length_append]
              congr 1
              omega
            rw [htail', hslice, ← List.drop_drop, List.take_append_drop]
          rw [hending] at hdrop
          rw [hgroups] at hdrop hskipped
          refine ⟨36 :: (header ++ (eol ++ (payload ++ (ending ++ groups)))), payload :: args, rest, ?_,
            by rw [List.length_cons, hcount], by rw [hargv, List.append_assoc]; rfl, ?_,
            .cons heol ?_ (by omega) hskipped hread⟩
          · rw [hheader, hdrop]
            simp only [List.append_assoc, List.cons_append]
          · rw [hconsumed, hafter]
            simp only [List.length_cons, List.length_append]
            omega
          · rw [hint, hpayloadLen, Int.toNat_of_nonneg (by omega)]

/-- **Groups are read**, whatever stands before them, by induction on them. -/
theorem parseArgs_groups {max : Nat} {groups rest : Bytes} {args : List Bytes}
    (h : Groups Skipped max groups args rest) : ∀ (front : Bytes) (argv : List Bytes),
    parseArgs (front ++ (groups ++ rest)) max args.length front.length argv =
      some (.request (argv ++ args) (front.length + groups.length)) := by
  induction h with
  | nil rest =>
    intro front argv
    rw [List.append_nil]
    rfl
  | @cons header eol payload ending more rest args hline hlength hmax hend h ih =>
    intro front argv
    have hbuf : front ++ (36 :: (header ++ (eol ++ (payload ++ (ending ++ more)))) ++ rest) =
        front ++ 36 :: (header ++ (eol ++ (payload ++ (ending ++ (more ++ rest))))) := by
      simp only [List.cons_append, List.append_assoc]
    have hmarker : (front ++ 36 :: (header ++ (eol ++ (payload ++ (ending ++ (more ++ rest))))))[
        front.length]? = some 36 := by
      rw [List.getElem?_append_right le_rfl, Nat.sub_self]
      rfl
    have hread := readLine_line hline (front ++ [36]) (payload ++ (ending ++ (more ++ rest)))
    have hterm := terminatorLen_skipped hend (front ++ 36 :: (header ++ (eol ++ payload)))
    have hlater := ih (front ++ 36 :: (header ++ (eol ++ (payload ++ ending)))) (argv ++ [payload])
    have hpayload : slice (front ++ 36 :: (header ++ (eol ++ (payload ++ (ending ++ (more ++ rest))))))
        (header.length + eol.length + (front.length + 1))
        (header.length + eol.length + (front.length + 1) + payload.length) = some payload := by
      rw [slice_of_le (Nat.le_add_right _ _) (by simp; omega), List.drop_take, Nat.add_sub_cancel_left]
      have hfront : front ++ 36 :: (header ++ (eol ++ (payload ++ (ending ++ (more ++ rest))))) =
          (front ++ 36 :: (header ++ eol)) ++ (payload ++ (ending ++ (more ++ rest))) := by
        simp only [List.append_assoc, List.cons_append]
      have hfrontLen : header.length + eol.length + (front.length + 1) =
          (front ++ 36 :: (header ++ eol)).length := by
        simp only [List.length_append, List.length_cons]
        omega
      rw [hfront, hfrontLen, List.drop_left, List.take_left]
    simp only [List.append_assoc, List.cons_append, List.nil_append, List.length_append,
      List.length_cons, List.length_nil] at hread hterm hlater
    have htotal : (front ++ 36 :: (header ++ (eol ++ (payload ++ (ending ++ (more ++ rest)))))).length =
        front.length + header.length + eol.length + payload.length + ending.length + more.length +
          rest.length + 1 := by
      simp only [List.length_append, List.length_cons]
      omega
    rw [hbuf]
    show parseArgs _ max (args.length + 1) front.length argv = _
    unfold parseArgs
    rw [if_neg (by rw [htotal]; omega), hmarker]
    simp only [Option.bind_eq_bind, Option.bind_some]
    rw [if_neg (by simp), hread]
    simp only [Option.bind_some]
    rw [hlength]
    dsimp only
    have hpos := hterm.2
    rw [Int.toNat_natCast, if_neg (by omega), if_neg (by rw [htotal]; omega),
      show header.length + eol.length + (front.length + (0 + 1)) + payload.length =
        front.length + (header.length + (eol.length + payload.length) + 1) by omega, hterm.1]
    dsimp only
    have hstart : header.length + eol.length + (front.length + (0 + 1)) =
        header.length + eol.length + (front.length + 1) := rfl
    have hstop : front.length + (header.length + (eol.length + payload.length) + 1) =
        header.length + eol.length + (front.length + 1) + payload.length := by omega
    have hnext : front.length + (header.length + (eol.length + payload.length) + 1) + ending.length =
        front.length + (header.length + (eol.length + (payload.length + ending.length)) + 1) := by omega
    rw [if_neg (by rw [htotal]; omega), hnext, hstart, hstop, hpayload, Option.bind_some, hlater]
    congr 2
    simp only [List.length_cons, List.length_append]
    omega

/-- The last byte of groups that end at line ends. -/
theorem getLast_groups {max : Nat} {groups rest : Bytes} {args : List Bytes}
    (h : Groups LineEnd max groups args rest) : args ≠ [] → groups.getLast? = some 10 := by
  induction h with
  | nil => exact fun h => absurd rfl h
  | @cons header eol payload ending more rest args hline hlength hmax hend h ih =>
    intro _
    have hlast : (ending ++ more).getLast? = some 10 := by
      cases h with
      | nil =>
        rw [List.append_nil]
        rcases hend with rfl | rfl <;> rfl
      | cons =>
        rw [List.getLast?_append, ih (List.cons_ne_nil _ _)]
        rfl
    rw [List.getLast?_cons, List.getLast?_append, List.getLast?_append, List.getLast?_append, hlast]
    rfl

/-- **Only these multibulk requests are accepted**: a count line, and for each argument a length line,
that many bytes and CRLF; or in the place of CRLF a single byte, whatever it is. -/
theorem accepted_exact (buf : Bytes) (maxBulkLen : Nat) (argv : List Bytes) (consumed : Nat) :
    parseRequest buf maxBulkLen = some (.request argv consumed) ∧ buf.head? = some 42 ∧ argv ≠ [] ↔
      ∃ frame rest, buf = frame ++ rest ∧ consumed = frame.length ∧
        Framed Skipped maxBulkLen frame argv rest := by
  constructor
  · rintro ⟨h, hstar, hne⟩
    obtain ⟨body, rfl⟩ := List.head?_eq_some_iff.mp hstar
    have h' : parseArrayRequest (42 :: body) maxBulkLen = some (.request argv consumed) := h
    unfold parseArrayRequest at h'
    obtain ⟨line, hline, h'⟩ := Option.bind_eq_some_iff.mp h'
    cases line with
    | none => cases h'
    | some line =>
      obtain ⟨header, pos⟩ := line
      dsimp only at h'
      cases hint : parseInteger header with
      | none =>
        rw [hint] at h'
        cases h'
      | some count =>
        rw [hint] at h'
        dsimp only at h'
        split at h'
        · cases h'
          exact absurd rfl hne
        rename_i hpos
        split at h'
        · cases h'
        rename_i hmany
        obtain ⟨eol, tail, heol, htail, hafter⟩ := line_of_readLine (by simp) hline
        have htail : body = header ++ (eol ++ tail) := htail
        have hlen : (42 :: body).length = 1 + header.length + eol.length + tail.length := by
          rw [htail]
          simp only [List.length_cons, List.length_append]
          omega
        obtain ⟨groups, args, rest, hgroups, hcount, hargv, hconsumed, hread⟩ :=
          groups_of_parseArgs _ _ _ _ _ (by rw [hlen]; omega) h'
        have hdrop : (42 :: body).drop pos = tail := by
          rw [hafter, List.drop_succ_cons, htail, ← List.append_assoc, ← List.length_append, List.drop_left]
        rw [hdrop] at hgroups
        rw [List.nil_append] at hargv
        have hargs : (argv.length : Int) = count := by
          rw [hargv, hcount, Int.toNat_of_nonneg (by omega)]
        refine ⟨42 :: (header ++ (eol ++ groups)), rest, ?_, ?_, header, eol, groups, rfl, heol, ?_, ?_, ?_,
          hargv ▸ hread⟩
        · rw [htail, hgroups]
          simp only [List.cons_append, List.append_assoc]
        · rw [hconsumed, hafter]
          simp only [List.length_cons, List.length_append]
          omega
        · rw [hint, hargs]
        · omega
        · omega
  · rintro ⟨frame, rest, rfl, rfl, header, eol, groups, rfl, hline, hcount, hpos, hmany, hgroups⟩
    have hargs := parseArgs_groups hgroups (42 :: (header ++ eol)) []
    have hbuf : 42 :: (header ++ eol) ++ (groups ++ rest) = 42 :: (header ++ (eol ++ groups)) ++ rest := by
      simp only [List.cons_append, List.append_assoc]
    have hread : readLine (42 :: (header ++ (eol ++ groups)) ++ rest) 1 =
        some (some (header, header.length + eol.length + 1)) := by
      rw [← hbuf, List.cons_append, List.append_assoc]
      exact readLine_line hline [42] (groups ++ rest)
    have hstart : (42 :: (header ++ eol)).length = header.length + eol.length + 1 := by
      rw [List.length_cons, List.length_append]
    rw [hbuf, hstart, List.nil_append] at hargs
    refine ⟨?_, rfl, List.length_pos_iff.mp hpos⟩
    show parseArrayRequest (42 :: (header ++ (eol ++ groups)) ++ rest) maxBulkLen = _
    unfold parseArrayRequest
    rw [hread]
    simp only [Option.bind_eq_bind, Option.bind_some]
    rw [hcount]
    dsimp only
    rw [if_neg (by omega), if_neg (by omega), Int.toNat_natCast, hargs]
    congr 2
    simp only [List.length_cons, List.length_append]
    omega

/-- A payload of one byte followed by a byte that ends nothing is accepted. -/
theorem accepted_misframed :
    parseRequest (Text.bytes "*1\r\n$1\r\nab") 512 = some (.request [[97]] 10) ∧
      ¬ ∃ frame rest, Text.bytes "*1\r\n$1\r\nab" = frame ++ rest ∧ 10 = frame.length ∧
        Framed LineEnd 512 frame [[97]] rest := by
  refine ⟨by decide +kernel, ?_⟩
  rintro ⟨frame, rest, hbuf, hlen, header, eol, groups, rfl, -, -, -, -, hgroups⟩
  have hrest : rest = [] := by
    have hlength := congrArg List.length hbuf
    rw [List.length_append, ← hlen, show (Text.bytes "*1\r\n$1\r\nab").length = 10 by decide +kernel]
      at hlength
    exact List.length_eq_zero_iff.mp (by omega)
  have hlast : (Text.bytes "*1\r\n$1\r\nab").getLast? = some 10 := by
    rw [hbuf, hrest, List.append_nil, List.getLast?_cons, List.getLast?_append, List.getLast?_append,
      getLast_groups hgroups (List.cons_ne_nil _ _)]
    rfl
  exact absurd hlast (by decide +kernel)

end Klyro
