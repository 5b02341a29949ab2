import Klyro.Resp.Frame
import Klyro.Resp.Request
import Klyro.World

/-!
# A command comes back from its wire form

* `encodeRequest` — the standard multibulk encoding of a command.
* `readLine_digits` — a count line is read back whatever follows it.
* `parseArgs_encoded` — so are the arguments, whatever their bytes.
* `parseRequest_encoded` — the round trip, and that a cut encoding is waited for.
-/

set_option autoImplicit false

namespace Klyro

/-- The multibulk encoding of a command: the number of arguments, then each one with its length. -/
def encodeRequest (argv : List Bytes) : Bytes :=
  countLine 42 argv.length ++ argv.flatMap encodeBulk

example : encodeRequest [Text.bytes "GET", Text.bytes "k"] =
    Text.bytes "*2\r\n$3\r\nGET\r\n$1\r\nk\r\n" := by decide +kernel

/-- It is the wire form of the array of its arguments. -/
theorem encodeRequest_eq (argv : List Bytes) (protocol : Protocol) :
    encodeRequest argv = encode protocol (Reply.bulkArray argv) := by
  have hitems : ∀ argv : List Bytes,
      encodeItems protocol (argv.map Reply.bulk) = argv.flatMap encodeBulk := by
    intro argv
    induction argv with
    | nil => simp [encodeItems]
    | cons arg argv ih => simp [encodeItems, encode, ih]
  simp [encodeRequest, Reply.bulkArray, encode, hitems]

/-! ## Lines -/

theorem newline_notMem_digitBytes (n : Nat) : (10 : UInt8) ∉ digitBytes n :=
  not_mem_utf8_of_visible (Text.ascii_toDigits n) (Text.word_toDigits n).solid (.inr rfl)

theorem parseInteger_digitBytes {n : Nat} (h : n ≤ isizeMax) :
    parseInteger (digitBytes n) = some (n : Int) := by
  have hshow : Text.showInt (n : Int) = Nat.toDigits 10 n := by
    unfold Text.showInt
    rw [if_neg (by omega), Int.natAbs_natCast]
  unfold parseInteger digitBytes
  rw [Text.fromUtf8_ascii (Text.ascii_toDigits n), Option.bind_some, (Text.word_toDigits n).trim,
    ← hshow]
  refine Text.parseInt_showInt ?_
  unfold isizeMax at h
  unfold i64Min i64Max
  omega

theorem slice_middle (front middle rest : Bytes) :
    slice (front ++ (middle ++ rest)) front.length (front.length + middle.length) = some middle := by
  rw [slice_of_le (by omega) (by simp only [List.length_append]; omega), List.take_length_add_append,
    List.drop_left, List.take_left]

/-- **A count is read back**, whatever stands before its line and after it. -/
theorem readLine_digits (front rest : Bytes) (n : Nat) :
    readLine (front ++ (digitBytes n ++ (crlf ++ rest))) front.length =
      some (some (digitBytes n, front.length + (digitBytes n).length + 2)) := by
  have hfind : (digitBytes n ++ (crlf ++ rest)).findIdx? (· == 10) =
      some ((digitBytes n).length + 1) := by
    have hdigits : (digitBytes n).findIdx? (· == 10) = none := by
      rw [List.findIdx?_eq_none_iff]
      intro b hb
      rw [beq_eq_false_iff_ne]
      rintro rfl
      exact newline_notMem_digitBytes n hb
    rw [List.findIdx?_append, hdigits]
    simp [crlf, List.findIdx?_cons, Nat.add_comm]
  have hbefore : (front ++ (digitBytes n ++ (crlf ++ rest)))[front.length + (digitBytes n).length]? =
      some 13 := by
    rw [← List.append_assoc, ← List.length_append, List.getElem?_append_right le_rfl, Nat.sub_self]
    rfl
  unfold readLine
  rw [slice_of_le (by simp) le_rfl]
  simp only [List.take_length, List.drop_left, Option.bind_eq_bind, Option.bind_some]
  rw [hfind]
  dsimp only
  have hlast : (digitBytes n).length + 1 + front.length - 1 = front.length + (digitBytes n).length := by
    omega
  rw [if_pos (by omega), hlast, hbefore]
  simp only [Option.bind_some, if_true]
  rw [slice_middle front (digitBytes n) (crlf ++ rest), Option.bind_some,
    show (digitBytes n).length + 1 + front.length + 1 = front.length + (digitBytes n).length + 2 by
      omega]
  rfl

/-! ## Arguments -/

theorem byte_middle (front rest : Bytes) (b : UInt8) :
    (front ++ b :: rest)[front.length]? = some b := by
  rw [List.getElem?_append_right le_rfl, Nat.sub_self]
  rfl

/-- The end of a payload is taken for what it is, whatever the payload holds. -/
theorem terminatorLen_crlf (front rest : Bytes) :
    terminatorLen (front ++ (crlf ++ rest)) front.length = some 2 := by
  have hnext : (front ++ (13 :: 10 :: rest))[front.length + 1]? = some 10 := by
    rw [List.getElem?_append_right (Nat.le_add_right _ 1), Nat.add_sub_cancel_left]
    rfl
  show terminatorLen (front ++ (13 :: 10 :: rest)) front.length = some 2
  unfold terminatorLen
  rw [byte_middle, Option.bind_eq_bind, Option.bind_some, if_pos rfl, hnext]
  rfl

/-- **The arguments are read back**, whatever their bytes and whatever follows. -/
theorem parseArgs_encoded {maxBulkLen : Nat} (rest : Bytes) : ∀ (argv : List Bytes) (front : Bytes)
    (done : List Bytes), (∀ arg ∈ argv, arg.length ≤ maxBulkLen) →
      (∀ arg ∈ argv, arg.length ≤ isizeMax) →
      parseArgs (front ++ (argv.flatMap encodeBulk ++ rest)) maxBulkLen argv.length front.length done =
        some (.request (done ++ argv) (front.length + (argv.flatMap encodeBulk).length))
  | [], front, done, _, _ => by
    rw [List.append_nil]
    rfl
  | arg :: argv, front, done, hmax, hvec => by
    have hmaxArg := hmax arg List.mem_cons_self
    have hvecArg := hvec arg List.mem_cons_self
    -- the buffer, with the argument's marker, length, payload and end apart
    have hbuf : front ++ ((arg :: argv).flatMap encodeBulk ++ rest) = front ++ 36 ::
        (digitBytes arg.length ++ (crlf ++ (arg ++ (crlf ++ (argv.flatMap encodeBulk ++ rest))))) := by
      simp [List.flatMap_cons, encodeBulk, countLine, digitBytes]
    have hmarker := byte_middle front
      (digitBytes arg.length ++ (crlf ++ (arg ++ (crlf ++ (argv.flatMap encodeBulk ++ rest))))) 36
    have hline := readLine_digits (front ++ [36])
      (arg ++ (crlf ++ (argv.flatMap encodeBulk ++ rest))) arg.length
    have hend := terminatorLen_crlf (front ++ 36 :: (digitBytes arg.length ++ (crlf ++ arg)))
      (argv.flatMap encodeBulk ++ rest)
    have hpayload := slice_middle (front ++ 36 :: (digitBytes arg.length ++ crlf)) arg
      (crlf ++ (argv.flatMap encodeBulk ++ rest))
    have hlater := parseArgs_encoded rest argv
      (front ++ 36 :: (digitBytes arg.length ++ (crlf ++ (arg ++ crlf)))) (done ++ [arg])
      (fun a ha => hmax a (List.mem_cons_of_mem _ ha)) fun a ha => hvec a (List.mem_cons_of_mem _ ha)
    simp only [List.append_assoc, List.cons_append, List.nil_append, List.length_append,
      List.length_cons, List.length_nil] at hline hend hpayload hlater
    have htotal : (front ++ 36 :: (digitBytes arg.length ++ (crlf ++ (arg ++ (crlf ++
        (argv.flatMap encodeBulk ++ rest)))))).length = front.length + (digitBytes arg.length).length +
          arg.length + (argv.flatMap encodeBulk).length + rest.length + 5 := by
      simp only [List.length_append, List.length_cons, crlf, List.length_nil]
      omega
    rw [hbuf]
    show parseArgs _ maxBulkLen (argv.length + 1) front.length done = _
    unfold parseArgs
    rw [if_neg (by rw [htotal]; omega), hmarker]
    simp only [Option.bind_eq_bind, Option.bind_some]
    rw [if_neg (by simp), hline]
    simp only [Option.bind_some]
    rw [parseInteger_digitBytes hvecArg]
    dsimp only
    rw [Int.toNat_natCast, if_neg (by omega), if_neg (by rw [htotal]; omega)]
    have hafter : front.length + 1 + (digitBytes arg.length).length + 2 + arg.length =
      front.length + ((digitBytes arg.length).length + (crlf.length + arg.length) + 1) := by
      simp only [crlf, List.length_cons, List.length_nil]
      omega
    rw [hafter, hend]
    dsimp only
    have hstart : front.length + 1 + (digitBytes arg.length).length + 2 =
        front.length + ((digitBytes arg.length).length + crlf.length + 1) := by
      simp only [crlf, List.length_cons, List.length_nil]
      omega
    have hcrlf : crlf.length = 2 := rfl
    have hstop : front.length + ((digitBytes arg.length).length + (crlf.length + arg.length) + 1) =
        front.length + ((digitBytes arg.length).length + crlf.length + 1) + arg.length := by omega
    have hnext : front.length + ((digitBytes arg.length).length + (crlf.length + arg.length) + 1) + 2 =
        front.length + ((digitBytes arg.length).length +
          (crlf.length + (arg.length + crlf.length)) + 1) := by omega
    rw [if_neg (by rw [htotal, hcrlf]; omega), hnext, hstart, hstop, hpayload, Option.bind_some, hlater]
    have hused : ((arg :: argv).flatMap encodeBulk).length = (digitBytes arg.length).length +
        (crlf.length + (arg.length + crlf.length)) + 1 + (argv.flatMap encodeBulk).length := by
      simp only [List.flatMap_cons, List.length_append, encodeBulk, countLine, digitBytes,
        List.length_cons]
      omega
    rw [hused]
    simp only [Nat.add_assoc]

/-- The longest array of arguments `parse_array_request` takes. -/
def maxArgs : Nat := 1024 * 1024

theorem encodeRequest_not_longInline (argv : List Bytes) : ¬ LongInline (encodeRequest argv) :=
  fun h => h.2.1 rfl

theorem parseRequest_encodeRequest {argv : List Bytes} {maxBulkLen : Nat} (hne : argv ≠ [])
    (hcount : argv.length ≤ maxArgs) (hmax : ∀ arg ∈ argv, arg.length ≤ maxBulkLen)
    (hvec : ∀ arg ∈ argv, arg.length ≤ isizeMax) (rest : Bytes) :
    parseRequest (encodeRequest argv ++ rest) maxBulkLen =
      some (.request argv (encodeRequest argv).length) := by
  have hbuf : encodeRequest argv ++ rest = [42] ++
      (digitBytes argv.length ++ (crlf ++ (argv.flatMap encodeBulk ++ rest))) := by
    simp [encodeRequest, countLine, digitBytes]
  have hline : readLine (42 :: (digitBytes argv.length ++
      (crlf ++ (argv.flatMap encodeBulk ++ rest)))) 1 =
        some (some (digitBytes argv.length, 1 + (digitBytes argv.length).length + 2)) :=
    readLine_digits [42] (argv.flatMap encodeBulk ++ rest) argv.length
  have hargs := parseArgs_encoded rest argv ([42] ++ (digitBytes argv.length ++ crlf)) [] hmax hvec
  simp only [List.append_assoc] at hargs
  have hsome : 0 < argv.length := List.length_pos_iff.mpr hne
  have hfew : argv.length ≤ isizeMax := by
    unfold maxArgs at hcount
    unfold isizeMax
    omega
  have hstart : ([42] ++ (digitBytes argv.length ++ crlf)).length =
      1 + (digitBytes argv.length).length + 2 := by
    simp only [List.length_append, crlf, List.length_cons, List.length_nil]
    omega
  rw [hbuf]
  unfold parseRequest
  simp only [List.cons_append, List.nil_append, List.isEmpty_cons, Bool.false_eq_true, if_false,
    List.getElem?_cons_zero, Option.bind_eq_bind, Option.bind_some, if_true]
  unfold parseArrayRequest
  rw [hline]
  simp only [Option.bind_eq_bind, Option.bind_some]
  rw [parseInteger_digitBytes hfew]
  dsimp only
  unfold maxArgs at hcount
  rw [if_neg (by omega), if_neg (by omega), Int.toNat_natCast, ← hstart]
  refine hargs.trans ?_
  rw [List.nil_append]
  congr 2
  simp only [encodeRequest, countLine, digitBytes, List.length_append, List.length_cons,
    List.length_nil]
  omega

/-- **The round trip.**  A command of at most `maxArgs` arguments, each within the limit (and within
what a `Vec` can hold), comes back from its encoding whatever follows, and of the encoding exactly
its length is used; anything short of the whole encoding is waited for. -/
theorem parseRequest_encoded {argv : List Bytes} {maxBulkLen : Nat} (hne : argv ≠ [])
    (hcount : argv.length ≤ maxArgs) (hmax : ∀ arg ∈ argv, arg.length ≤ maxBulkLen)
    (hvec : ∀ arg ∈ argv, arg.length ≤ isizeMax) :
    (∀ rest, parseRequest (encodeRequest argv ++ rest) maxBulkLen =
      some (.request argv (encodeRequest argv).length)) ∧
    ∀ cut, cut <+: encodeRequest argv → cut ≠ encodeRequest argv →
      parseRequest cut maxBulkLen = some .incomplete := by
  refine ⟨parseRequest_encodeRequest hne hcount hmax hvec, ?_⟩
  rintro cut ⟨more, hwhole⟩ hcut
  obtain ⟨r, hr, hwithin⟩ := parseRequest_returns cut maxBulkLen
  by_cases hincomplete : r = .incomplete
  · rw [hr, hincomplete]
  · -- an answer on the cut would be the answer on the whole, which uses more than the cut has
    have hshort : ¬ LongInline (cut ++ more) := by
      rw [hwhole]
      exact encodeRequest_not_longInline argv
    have hlater := parseRequest_append hr hincomplete more hshort
    have hfull := parseRequest_encodeRequest hne hcount hmax hvec []
    rw [List.append_nil] at hfull
    rw [hwhole, hfull, Option.some.injEq] at hlater
    rw [← hlater] at hwithin
    have hlength := congrArg List.length hwhole
    rw [List.length_append] at hlength
    have hnil : more = [] := List.length_eq_zero_iff.mp (by have := hwithin.2; omega)
    rw [hnil, List.append_nil] at hwhole
    exact absurd hwhole hcut

theorem parseRequest_encoded_get :
    parseRequest (encodeRequest [Text.bytes "GET", [13, 10]] ++ [36]) 512 =
      some (.request [Text.bytes "GET", [13, 10]] 21) ∧
    parseRequest ((encodeRequest [Text.bytes "GET", [13, 10]]).take 20) 512 = some .incomplete := by
  have h := @parseRequest_encoded [Text.bytes "GET", [13, 10]] 512 (by decide) (by decide)
    (by decide +kernel) (by decide +kernel)
  exact ⟨h.1 [36], h.2 _ (List.take_prefix _ _) (by decide +kernel)⟩

end Klyro
