import Klyro.Resp.Request

/-!
# Framing does not depend on how the stream was cut (`process_requests`)

* `drain` — the loop of `process_requests` over the read buffer: every complete command is taken
  off the front, until the buffer holds only part of one or is no command at all.
* `Session.feed` — one read: the chunk is appended and the buffer drained; after a protocol error
  nothing more is read.
* `drain_append` — draining a buffer, then more bytes, is draining them together.
-/

set_option autoImplicit false

namespace Klyro

/-- What a read buffer comes to: the commands taken off it, then the bytes of an unfinished one or
the protocol error that ends the connection. -/
structure Drained where
  argvs : List (List Bytes)
  rest : Bytes
  error : Option String
deriving DecidableEq

/-- The drain loop of `process_requests`, at most `fuel` rounds of it; `none` is a panic, or a
loop that goes on longer. -/
def drain (maxBulkLen : Nat) : Nat → Bytes → Option Drained
  | 0, _ => none
  | fuel + 1, rbuf => do
    match ← parseRequest rbuf maxBulkLen with
    | .incomplete => return ⟨[], rbuf, none⟩
    | .error message => return ⟨[], [], some message⟩
    | .request argv consumed =>
      let later ← drain maxBulkLen fuel (rbuf.drop consumed)
      return ⟨argv :: later.argvs, later.rest, later.error⟩

/-- The loop with as many rounds as the buffer can need. -/
def drainAll (maxBulkLen : Nat) (rbuf : Bytes) : Option Drained :=
  drain maxBulkLen (rbuf.length + 1) rbuf

/-- **The drain loop ends**: every round takes at least one byte, so a buffer of `n` bytes needs
at most `n + 1` rounds, and more rounds change nothing. -/
theorem drain_returns (maxBulkLen : Nat) (fuel : Nat) :
    ∀ rbuf : Bytes, rbuf.length < fuel →
      ∃ d, drain maxBulkLen fuel rbuf = some d ∧ drainAll maxBulkLen rbuf = some d := by
  induction fuel using Nat.strong_induction_on with
  | _ fuel ih =>
    intro rbuf hlen
    obtain ⟨fuel, rfl⟩ : ∃ n, fuel = n + 1 := ⟨fuel - 1, by omega⟩
    obtain ⟨r, hr, hw⟩ := parseRequest_returns rbuf maxBulkLen
    unfold drainAll drain
    simp only [hr, Option.bind_eq_bind, Option.bind_some]
    cases r with
    | incomplete => exact ⟨_, rfl, rfl⟩
    | error message => exact ⟨_, rfl, rfl⟩
    | request argv consumed =>
      obtain ⟨hpos, hle⟩ := hw
      have hdrop : (rbuf.drop consumed).length = rbuf.length - consumed := List.length_drop
      obtain ⟨d, hd, hall⟩ := ih fuel (by omega) (rbuf.drop consumed) (by omega)
      obtain ⟨d', hd', hall'⟩ := ih rbuf.length (by omega) (rbuf.drop consumed) (by omega)
      obtain rfl : d = d' := Option.some.inj (hall.symm.trans hall')
      refine ⟨⟨argv :: d.argvs, d.rest, d.error⟩, ?_, ?_⟩
      · dsimp only
        rw [hd]
        rfl
      · dsimp only
        rw [hd']
        rfl

/-- One round of the loop. -/
theorem drainAll_eq (maxBulkLen : Nat) (rbuf : Bytes) :
    drainAll maxBulkLen rbuf =
      match parseRequest rbuf maxBulkLen with
      | none => none
      | some .incomplete => some ⟨[], rbuf, none⟩
      | some (.error message) => some ⟨[], [], some message⟩
      | some (.request argv consumed) =>
        (drainAll maxBulkLen (rbuf.drop consumed)).map fun d =>
          ⟨argv :: d.argvs, d.rest, d.error⟩ := by
  obtain ⟨r, hr, hw⟩ := parseRequest_returns rbuf maxBulkLen
  conv_lhs => unfold drainAll drain
  simp only [hr, Option.bind_eq_bind, Option.bind_some]
  cases r with
  | incomplete => rfl
  | error message => rfl
  | request argv consumed =>
    obtain ⟨hpos, hle⟩ := hw
    obtain ⟨d, hd, hall⟩ := drain_returns maxBulkLen rbuf.length (rbuf.drop consumed)
      (by rw [List.length_drop]; omega)
    simp only [hd, hall, Option.bind_some, Option.map_some]
    rfl

/-- The places of a stream where the parser starts on a command. -/
inductive Starts (maxBulkLen : Nat) : Bytes → Bytes → Prop
  | here (stream : Bytes) : Starts maxBulkLen stream stream
  | next {stream rest : Bytes} {argv : List Bytes} {consumed : Nat} :
      parseRequest stream maxBulkLen = some (.request argv consumed) →
      Starts maxBulkLen (stream.drop consumed) rest → Starts maxBulkLen stream rest

/-- No bare line of the stream exceeds 64 KiB. -/
def ShortInlines (maxBulkLen : Nat) (stream : Bytes) : Prop :=
  ∀ rest, Starts maxBulkLen stream rest → ¬ LongInline rest

theorem ShortInlines.front {maxBulkLen : Nat} {stream : Bytes}
    (h : ShortInlines maxBulkLen stream) : ¬ LongInline stream := h _ (.here _)

theorem ShortInlines.drop {maxBulkLen : Nat} {stream : Bytes} {argv : List Bytes} {consumed : Nat}
    (h : ShortInlines maxBulkLen stream)
    (hp : parseRequest stream maxBulkLen = some (.request argv consumed)) :
    ShortInlines maxBulkLen (stream.drop consumed) := fun rest hs => h rest (.next hp hs)

theorem Starts.length_le {maxBulkLen : Nat} {stream rest : Bytes}
    (h : Starts maxBulkLen stream rest) : rest.length ≤ stream.length := by
  induction h with
  | here stream => exact le_rfl
  | next _ _ ih =>
    rw [List.length_drop] at ih
    omega

/-- A stream of at most 64 KiB has no longer line. -/
theorem shortInlines_of_length {maxBulkLen : Nat} {stream : Bytes}
    (h : stream.length ≤ inlineLimit) : ShortInlines maxBulkLen stream := by
  intro rest hs hlong
  have hle := hs.length_le
  have htake := (List.takeWhile_prefix (l := rest) (· ≠ 10)).length_le
  have hlimit := hlong.2.2
  omega

/-- Where the parser starts in a stream, it starts in every longer one without overlong lines. -/
theorem Starts.append {maxBulkLen : Nat} {stream rest : Bytes} (h : Starts maxBulkLen stream rest)
    (more : Bytes) :
    ShortInlines maxBulkLen (stream ++ more) → Starts maxBulkLen (stream ++ more) (rest ++ more) := by
  induction h with
  | here stream =>
    intro _
    exact .here _
  | next hp _ ih =>
    intro hshort
    have hp' := parseRequest_append hp (by simp) more hshort.front
    obtain ⟨_, hr, hw⟩ := parseRequest_returns _ maxBulkLen
    obtain rfl := Option.some.inj (hp.symm.trans hr)
    have hdrop := hshort.drop hp'
    rw [List.drop_append_of_le_length hw.2] at hdrop
    apply Starts.next hp'
    rw [List.drop_append_of_le_length hw.2]
    exact ih hdrop

theorem ShortInlines.left {maxBulkLen : Nat} {stream more : Bytes}
    (h : ShortInlines maxBulkLen (stream ++ more)) : ShortInlines maxBulkLen stream := by
  intro rest hs hlong
  exact h _ (hs.append more h) (hlong.append more)

/-- The bytes read after some, drained together with what those left over. -/
def Drained.andThen (d later : Drained) : Drained :=
  ⟨d.argvs ++ later.argvs, later.rest, later.error⟩

/-- **Draining a buffer and then more bytes is draining them together.** -/
theorem drain_append {maxBulkLen : Nat} (n : Nat) :
    ∀ {rbuf more : Bytes} {d : Drained}, rbuf.length ≤ n →
      ShortInlines maxBulkLen (rbuf ++ more) → drainAll maxBulkLen rbuf = some d →
      drainAll maxBulkLen (rbuf ++ more) =
        if d.error.isSome then some d
        else (drainAll maxBulkLen (d.rest ++ more)).map d.andThen := by
  induction n using Nat.strong_induction_on with
  | _ n ih =>
    intro rbuf more d hn hshort hd
    obtain ⟨r, hr, hw⟩ := parseRequest_returns rbuf maxBulkLen
    rw [drainAll_eq, hr] at hd
    cases r with
    | incomplete =>
      obtain rfl := Option.some.inj hd
      have hid : (fun later => Drained.andThen ⟨[], rbuf, none⟩ later) = id := rfl
      rw [if_neg (by simp)]
      show _ = (drainAll maxBulkLen (rbuf ++ more)).map (fun later => Drained.andThen _ later)
      rw [hid, Option.map_id, id]
    | error message =>
      obtain rfl := Option.some.inj hd
      rw [drainAll_eq, parseRequest_append hr (by simp) more hshort.front]
      rfl
    | request argv consumed =>
      obtain ⟨hpos, hle⟩ := hw
      obtain ⟨d', hd', rfl⟩ := Option.map_eq_some_iff.mp hd
      have hp := parseRequest_append hr (by simp) more hshort.front
      have hdrop : (rbuf ++ more).drop consumed = rbuf.drop consumed ++ more :=
        List.drop_append_of_le_length hle
      have hshort' := hshort.drop hp
      rw [hdrop] at hshort'
      rw [drainAll_eq, hp]
      dsimp only
      rw [hdrop, ih (n - 1) (by omega) (by rw [List.length_drop]; omega) hshort' hd']
      split
      · rfl
      · rw [Option.map_map]
        rfl

/-- A connection's reading side: what has been handed to `dispatch`, the read buffer, and the
protocol error that closed it. -/
abbrev Session := Drained

/-- One read of `handle_read`; after an error the connection is closing and reads nothing. -/
def Session.feed (maxBulkLen : Nat) (s : Session) (chunk : Bytes) : Option Session :=
  if s.error.isSome then some s
  else (drainAll maxBulkLen (s.rest ++ chunk)).map s.andThen

/-- Every chunk in turn, from an empty buffer. -/
def Session.run (maxBulkLen : Nat) (chunks : List Bytes) : Option Session :=
  chunks.foldlM (Session.feed maxBulkLen) ⟨[], [], none⟩

/-- From the state a stream was drained to, the rest of its chunks lead to the state the whole of
it is drained to. -/
theorem feed_drained {maxBulkLen : Nat} (chunks : List Bytes) :
    ∀ (read : Bytes) {s : Session}, drainAll maxBulkLen read = some s →
      ShortInlines maxBulkLen (read ++ chunks.flatten) →
      chunks.foldlM (Session.feed maxBulkLen) s = drainAll maxBulkLen (read ++ chunks.flatten) := by
  induction chunks with
  | nil =>
    intro read s hs _
    rw [List.flatten_nil, List.append_nil, hs]
    rfl
  | cons chunk chunks ih =>
    intro read s hs hshort
    rw [List.flatten_cons, ← List.append_assoc] at hshort ⊢
    -- one read takes the state of the bytes before it to the state of the bytes with it
    have hfeed : Session.feed maxBulkLen s chunk = drainAll maxBulkLen (read ++ chunk) :=
      (drain_append read.length le_rfl hshort.left hs).symm
    obtain ⟨s', -, hs'⟩ := drain_returns maxBulkLen _ _ (Nat.lt_succ_self (read ++ chunk).length)
    rw [List.foldlM_cons, hfeed, hs']
    exact ih _ hs' hshort

/-- **Framing does not depend on segmentation.**  However a stream without overlong bare lines is
cut into chunks, the commands handed on, the bytes left over and the protocol error are those of
the whole stream parsed at once.  Of any buffer, `parse_request` reads nothing out of range and
takes at least one byte and at most all of them for a command, so the drain loop comes to its end
within one round more than the buffer has bytes. -/
theorem segmentation_independent {maxBulkLen : Nat} {chunks : List Bytes}
    (hshort : ShortInlines maxBulkLen chunks.flatten) :
    (∃ s, drainAll maxBulkLen chunks.flatten = some s ∧ Session.run maxBulkLen chunks = some s) ∧
    (∀ buf, ∃ r, parseRequest buf maxBulkLen = some r ∧ r.Within 0 buf.length) ∧
    (∀ buf fuel, buf.length < fuel →
      ∃ d, drain maxBulkLen fuel buf = some d ∧ drainAll maxBulkLen buf = some d) := by
  refine ⟨?_, fun buf => parseRequest_returns buf maxBulkLen,
    fun buf fuel h => drain_returns maxBulkLen fuel buf h⟩
  obtain ⟨s, -, hs⟩ := drain_returns maxBulkLen _ _ (Nat.lt_succ_self chunks.flatten.length)
  have hempty : drainAll maxBulkLen [] = some ⟨[], [], none⟩ := rfl
  have hrun := feed_drained chunks [] hempty (by simpa using hshort)
  rw [List.nil_append, hs] at hrun
  exact ⟨s, hs, hrun⟩

/-- A command cut inside its payload, and between the two bytes of a line end. -/
theorem segmentation_independent_cut :
    ShortInlines 512 [Text.bytes "*1\r\n$4\r\nPI", Text.bytes "NG\r", Text.bytes "\nPING x\r\n"].flatten ∧
    Session.run 512 [Text.bytes "*1\r\n$4\r\nPI", Text.bytes "NG\r", Text.bytes "\nPING x\r\n"] =
      some ⟨[[Text.bytes "PING"], [Text.bytes "PING", Text.bytes "x"]], [], none⟩ := by
  have hshort : ShortInlines 512
      [Text.bytes "*1\r\n$4\r\nPI", Text.bytes "NG\r", Text.bytes "\nPING x\r\n"].flatten :=
    shortInlines_of_length (by decide +kernel)
  refine ⟨hshort, ?_⟩
  obtain ⟨⟨s, hs, hrun⟩, -⟩ := segmentation_independent hshort
  rw [hrun, ← hs]
  decide +kernel

end Klyro
