import Klyro.Commands.Basic

/-!
# Which keys a command writes (`commands/keyspec.rs`)

* `writes` — every command that changes the keyspace, with where its keys are.
* `writtenKeys` — the keys an argument vector names as written.
-/

set_option autoImplicit false

namespace Klyro

/-- Where a command's keys sit in its argument vector. -/
inductive Position where
  /-- Every `step`-th argument from `first` to `last`; a negative `last` counts from the end. -/
  | range (first : Nat) (last : Int) (step : Nat)
  /-- A count, with that many keys after it. -/
  | numkeys (pos : Nat)
  /-- The whole keyspace. -/
  | everything
deriving DecidableEq

/-- What a command modified. -/
inductive Written where
  | keys (keys : List Bytes)
  | everything
deriving DecidableEq

/-- `first_key`. -/
def firstKey : Position := .range 1 1 1

/-- `two_keys`. -/
def twoKeys : Position := .range 1 2 1

/-- `all_keys`. -/
def allKeys : Position := .range 1 (-1) 1

/-- `all_but_timeout`. -/
def allButTimeout : Position := .range 1 (-2) 1

/-- `WRITES`. -/
def writes : List (String × Position) :=
  [("DEL", allKeys), ("UNLINK", allKeys), ("EXPIRE", firstKey), ("PEXPIRE", firstKey),
    ("EXPIREAT", firstKey), ("PEXPIREAT", firstKey), ("PERSIST", firstKey), ("RENAME", twoKeys),
    ("RENAMENX", twoKeys), ("COPY", twoKeys), ("FLUSHDB", .everything), ("FLUSHALL", .everything),
    ("SET", firstKey), ("SETNX", firstKey), ("SETEX", firstKey), ("PSETEX", firstKey),
    ("GETSET", firstKey), ("GETDEL", firstKey), ("GETEX", firstKey), ("INCR", firstKey),
    ("DECR", firstKey), ("INCRBY", firstKey), ("DECRBY", firstKey), ("INCRBYFLOAT", firstKey),
    ("APPEND", firstKey), ("SETRANGE", firstKey), ("MSET", .range 1 (-1) 2),
    ("MSETNX", .range 1 (-1) 2), ("LPUSH", firstKey), ("RPUSH", firstKey), ("LPUSHX", firstKey),
    ("RPUSHX", firstKey), ("LPOP", firstKey), ("RPOP", firstKey), ("LSET", firstKey),
    ("LINSERT", firstKey), ("LREM", firstKey), ("LTRIM", firstKey), ("RPOPLPUSH", twoKeys),
    ("LMOVE", twoKeys), ("LMPOP", .numkeys 1), ("BLPOP", allButTimeout), ("BRPOP", allButTimeout),
    ("BLMOVE", twoKeys), ("BRPOPLPUSH", twoKeys), ("BLMPOP", .numkeys 2), ("HSET", firstKey),
    ("HSETNX", firstKey), ("HMSET", firstKey), ("HDEL", firstKey), ("HINCRBY", firstKey),
    ("HINCRBYFLOAT", firstKey), ("SADD", firstKey), ("SREM", firstKey), ("SPOP", firstKey),
    ("SMOVE", twoKeys), ("SINTERSTORE", allKeys), ("SUNIONSTORE", allKeys), ("SDIFFSTORE", allKeys),
    ("ZADD", firstKey), ("ZINCRBY", firstKey), ("ZREM", firstKey), ("ZREMRANGEBYRANK", firstKey),
    ("ZREMRANGEBYSCORE", firstKey), ("ZPOPMIN", firstKey), ("ZPOPMAX", firstKey),
    ("ZMPOP", .numkeys 1), ("BZPOPMIN", allButTimeout), ("BZPOPMAX", allButTimeout),
    ("BZMPOP", .numkeys 2), ("MEM.CREATE", firstKey), ("MEM.CONFIG", firstKey),
    ("MEM.ADD", firstKey), ("MEM.DEL", firstKey), ("MEM.SETMETA", firstKey),
    ("MEM.DELMETA", firstKey), ("MEM.EXPIRE", firstKey)]

/-- `DENY_OOM`. -/
def denyOom : List String :=
  ["RENAME", "RENAMENX", "COPY", "SET", "SETNX", "SETEX", "PSETEX", "GETSET", "MSET", "MSETNX",
    "APPEND", "SETRANGE", "INCR", "DECR", "INCRBY", "DECRBY", "INCRBYFLOAT", "LPUSH", "RPUSH",
    "LPUSHX", "RPUSHX", "LSET", "LINSERT", "RPOPLPUSH", "LMOVE", "BLMOVE", "BRPOPLPUSH", "HSET",
    "HSETNX", "HMSET", "HINCRBY", "HINCRBYFLOAT", "SADD", "SMOVE", "SINTERSTORE", "SUNIONSTORE",
    "SDIFFSTORE", "ZADD", "ZINCRBY", "MEM.CREATE", "MEM.ADD", "MEM.SETMETA"]

/-- `denies_oom`. -/
def deniesOom (name : String) : Bool := denyOom.contains name

/-- The loop of `written_keys` over a range; `fuel` is the number of arguments. -/
def rangeKeys (argv : List Bytes) (last : Int) (step : Nat) : Nat → Nat → List Bytes
  | 0, _ => []
  | fuel + 1, pos =>
    if (pos : Int) ≤ last ∧ pos < argv.length then
      arg argv pos :: rangeKeys argv last step fuel (pos + step)
    else []

/-- The keys at a position. -/
def Position.written (argv : List Bytes) : Position → Written
  | .everything => .everything
  | .numkeys pos =>
    let count := ((argv[pos]?).bind parseI64).getD 0
    .keys ((argv.drop (pos + 1)).take count.toNat)
  | .range first last step =>
    let last := if last < 0 then (argv.length : Int) + last else last
    .keys (rangeKeys argv last step argv.length first)

/-- `written_keys`. -/
def writtenKeys (name : String) (argv : List Bytes) : Option Written :=
  (writes.lookup name).map (Position.written argv)

/-- The keys a command says it writes. -/
def Named (name : String) (argv : List Bytes) (key : Bytes) : Prop :=
  match writtenKeys name argv with
  | none => False
  | some .everything => True
  | some (.keys keys) => key ∈ keys

section named

variable {name : String} {argv : List Bytes}

/-- A range reaches every argument on its way. -/
theorem mem_rangeKeys {last : Int} {step i : Nat} : ∀ {fuel pos : Nat} (j : Nat), j < fuel →
    i = pos + j * step → (i : Int) ≤ last → i < argv.length →
    arg argv i ∈ rangeKeys argv last step fuel pos
  | fuel + 1, pos, j, hj, hi, hlast, hlen => by
    have hpos : pos ≤ i := by rw [hi]; exact Nat.le_add_right _ _
    have hcond : (pos : Int) ≤ last ∧ pos < argv.length := by omega
    unfold rangeKeys
    rw [if_pos hcond]
    cases j with
    | zero =>
      rw [hi, Nat.zero_mul, Nat.add_zero]
      exact List.mem_cons_self
    | succ j =>
      refine List.mem_cons_of_mem _ (mem_rangeKeys j (by omega) ?_ hlast hlen)
      rw [hi, Nat.succ_mul]
      omega

theorem named_range {first step i : Nat} {last : Int} (j : Nat)
    (h : writes.lookup name = some (.range first last step)) (hi : i = first + j * step)
    (hlast : (i : Int) ≤ if last < 0 then (argv.length : Int) + last else last)
    (hlen : i < argv.length) (hj : j < argv.length) : Named name argv (arg argv i) := by
  unfold Named writtenKeys
  rw [h]
  exact mem_rangeKeys j hj hi hlast hlen

theorem named_first (h : writes.lookup name = some firstKey) (hlen : 1 < argv.length) :
    Named name argv (arg argv 1) :=
  named_range 0 h rfl (by simp) hlen (by omega)

theorem named_two (h : writes.lookup name = some twoKeys) (hlen : 2 < argv.length) :
    Named name argv (arg argv 1) ∧ Named name argv (arg argv 2) :=
  ⟨named_range 0 h rfl (by simp) (by omega) (by omega),
    named_range 1 h rfl (by simp) hlen (by omega)⟩

theorem arg_of_mem_drop {n : Nat} {key : Bytes} (h : key ∈ argv.drop n) :
    ∃ i, n ≤ i ∧ i < argv.length ∧ arg argv i = key := by
  obtain ⟨i, hi, hkey⟩ := List.mem_iff_getElem.mp h
  rw [List.length_drop] at hi
  refine ⟨n + i, by omega, by omega, ?_⟩
  rw [List.getElem_drop] at hkey
  rw [arg, List.getD_eq_getElem?_getD, List.getElem?_eq_getElem (by omega)]
  exact hkey

theorem named_all (h : writes.lookup name = some allKeys) {key : Bytes} (hkey : key ∈ argv.drop 1) :
    Named name argv key := by
  obtain ⟨i, hi, hlen, rfl⟩ := arg_of_mem_drop hkey
  exact named_range (i - 1) h (by omega) (by norm_num; omega) hlen (by omega)

theorem named_allButTimeout (h : writes.lookup name = some allButTimeout) {key : Bytes}
    (hkey : key ∈ (argv.drop 1).dropLast) : Named name argv key := by
  obtain ⟨i, hi, hk⟩ := List.mem_iff_getElem.mp hkey
  rw [List.length_dropLast, List.length_drop] at hi
  rw [List.getElem_dropLast, List.getElem_drop] at hk
  have harg : arg argv (1 + i) = key := by
    rw [arg, List.getD_eq_getElem?_getD, List.getElem?_eq_getElem (by omega)]
    exact hk
  rw [← harg]
  exact named_range i h (by omega) (by norm_num; omega) (by omega) (by omega)

theorem named_numkeys {pos : Nat} {count : Int} (h : writes.lookup name = some (.numkeys pos))
    (hcount : (argv[pos]?).bind parseI64 = some count) {key : Bytes}
    (hkey : key ∈ (argv.drop (pos + 1)).take count.toNat) : Named name argv key := by
  unfold Named writtenKeys
  rw [h]
  show key ∈ (argv.drop (pos + 1)).take (((argv[pos]?).bind parseI64).getD 0).toNat
  rw [hcount]
  exact hkey

theorem named_everything (h : writes.lookup name = some .everything) (key : Bytes) :
    Named name argv key := by
  unfold Named writtenKeys
  rw [h]
  trivial

/-- The keys of the pairs behind a command's name are its odd arguments. -/
theorem arg_of_mem_pairsOf : ∀ {rest : List Bytes} {p : Bytes × Bytes}, p ∈ pairsOf rest →
    ∃ j, 2 * j < rest.length ∧ rest[2 * j]? = some p.1
  | a :: b :: rest, p, hp => by
    rcases List.mem_cons.mp hp with rfl | hp
    · exact ⟨0, by simp, rfl⟩
    · obtain ⟨j, hj, hget⟩ := arg_of_mem_pairsOf hp
      refine ⟨j + 1, ?_, ?_⟩
      · simp only [List.length_cons]
        omega
      · rw [show 2 * (j + 1) = 2 * j + 1 + 1 from by omega]
        exact hget

theorem named_pairs (h : writes.lookup name = some (.range 1 (-1) 2)) {p : Bytes × Bytes}
    (hp : p ∈ pairsOf (argv.drop 1)) : Named name argv p.1 := by
  obtain ⟨j, hj, hget⟩ := arg_of_mem_pairsOf hp
  rw [List.length_drop] at hj
  have harg : arg argv (1 + 2 * j) = p.1 := by
    rw [List.getElem?_drop] at hget
    rw [arg, List.getD_eq_getElem?_getD, hget]
    rfl
  rw [← harg]
  exact named_range j h (by omega) (by norm_num; omega) (by omega) (by omega)

end named

end Klyro
