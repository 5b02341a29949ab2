import Klyro.Commands.Lists

/-!
# Sorted set commands (`commands/zset.rs`)
-/

set_option autoImplicit false

namespace Klyro.Zsets

/-- `pairs_reply`. -/
def pairsReply (pairs : List (Bytes × F64)) (withScores : Bool) : Reply :=
  if withScores then .scoredMembers pairs else .bulkArray (pairs.map Prod.fst)

/-- `score_bounds`. -/
def scoreBounds (min max : Bytes) : Cmd (ScoreBound × ScoreBound) :=
  match ScoreBound.parse min, ScoreBound.parse max with
  | some a, some b => pure (a, b)
  | _, _ => throw (.error "ERR min or max is not a float")

/-- `with_scores`, from the fifth argument on. -/
def withScores (argv : List Bytes) : Cmd Bool :=
  if argv.length - 4 = 0 then pure false
  else if argv.length - 4 = 1 ∧ eqIgnoreCase (arg argv 4) "WITHSCORES" then pure true
  else throw syntaxError

/-- `ZSCORE`. -/
def zscore : Handler := fun argv => do
  exactArgs argv "ZSCORE" 2
  checkType (arg argv 1) .zset
  let z ← Store.readZset (arg argv 1)
  return match z.bind fun z => z.score (arg argv 2) with
    | some s => .double s
    | none => .nil

/-- `ZMSCORE`. -/
def zmscore : Handler := fun argv => do
  minArgs argv "ZMSCORE" 2
  checkType (arg argv 1) .zset
  let z ← Store.readZset (arg argv 1)
  return .array ((argv.drop 2).map fun m =>
    match z.bind fun z => z.score m with
    | some s => .double s
    | none => .nil)

/-- `ZINCRBY`. -/
def zincrby : Handler := fun argv => do
  exactArgs argv "ZINCRBY" 3
  let increment ← floatArg (arg argv 2)
  checkType (arg argv 1) .zset
  let updated ← Store.getOrCreateZset (arg argv 1) (Act.state fun z => z.incrBy (arg argv 3) increment)
  let updated ← expect "type checked" updated
  if !updated.isFinite then
    let undone ← Store.writeZset (arg argv 1) (Act.modify fun z => (z.rem (arg argv 3)).2)
    expect "just created" undone
    Store.deleteIfEmpty (arg argv 1)
    return .error "ERR resulting score is not a number (NaN)"
  return .double updated

/-- Remove every member, counting those that were there. -/
def removeMembers : List Bytes → Zset → Nat × Zset
  | [], z => (0, z)
  | m :: ms, z =>
    let one := z.rem m
    let rest := removeMembers ms one.2
    (if one.1 then rest.1 + 1 else rest.1, rest.2)

/-- `ZREM`. -/
def zrem : Handler := fun argv => do
  minArgs argv "ZREM" 2
  checkType (arg argv 1) .zset
  let removed ← Store.writeZset (arg argv 1) (Act.state (removeMembers (argv.drop 2)))
  Store.deleteIfEmpty (arg argv 1)
  return .integer (removed.getD 0)

/-- `ZCARD`. -/
def zcard : Handler := fun argv => do
  exactArgs argv "ZCARD" 1
  checkType (arg argv 1) .zset
  let z ← Store.readZset (arg argv 1)
  return .integer ((z.map Zset.size).getD 0)

/-- `ZRANK`, `ZREVRANK`. -/
def zrank (name : String) (rank : Zset → Bytes → Option Nat) : Handler := fun argv => do
  exactArgs argv name 2
  checkType (arg argv 1) .zset
  let z ← Store.readZset (arg argv 1)
  return match z.bind fun z => rank z (arg argv 2) with
    | some r => .integer r
    | none => .nil

/-- `ZRANGE`, `ZREVRANGE`. -/
def zrange (name : String) (range : Zset → Int → Int → List (Bytes × F64)) : Handler := fun argv => do
  minArgs argv name 3
  let start ← intArg (arg argv 2)
  let stop ← intArg (arg argv 3)
  let scores ← withScores argv
  checkType (arg argv 1) .zset
  let z ← Store.readZset (arg argv 1)
  return pairsReply ((z.map fun z => range z start stop).getD []) scores

/-- `ZRANGEBYSCORE`, and `ZREVRANGEBYSCORE`, which takes its bounds high-first. -/
def zrangebyscore (name : String) (reversed : Bool) : Handler := fun argv => do
  minArgs argv name 3
  let bounds ← if reversed then scoreBounds (arg argv 3) (arg argv 2)
    else scoreBounds (arg argv 2) (arg argv 3)
  let scores ← withScores argv
  checkType (arg argv 1) .zset
  let z ← Store.readZset (arg argv 1)
  let pairs := (z.map fun z => z.rangeByScore bounds.1 bounds.2).getD []
  return pairsReply (if reversed then pairs.reverse else pairs) scores

/-- `ZCOUNT`. -/
def zcount : Handler := fun argv => do
  exactArgs argv "ZCOUNT" 3
  let bounds ← scoreBounds (arg argv 2) (arg argv 3)
  checkType (arg argv 1) .zset
  let z ← Store.readZset (arg argv 1)
  return .integer ((z.map fun z => z.countByScore bounds.1 bounds.2).getD 0)

/-- `ZREMRANGEBYSCORE`. -/
def zremrangebyscore : Handler := fun argv => do
  exactArgs argv "ZREMRANGEBYSCORE" 3
  let bounds ← scoreBounds (arg argv 2) (arg argv 3)
  checkType (arg argv 1) .zset
  let removed ← Store.writeZset (arg argv 1) (Act.state fun z =>
    z.removeRangeByScore bounds.1 bounds.2)
  Store.deleteIfEmpty (arg argv 1)
  return .integer (removed.getD 0)

/-- `ZREMRANGEBYRANK`. -/
def zremrangebyrank : Handler := fun argv => do
  exactArgs argv "ZREMRANGEBYRANK" 3
  let start ← intArg (arg argv 2)
  let stop ← intArg (arg argv 3)
  checkType (arg argv 1) .zset
  let removed ← Store.writeZset (arg argv 1) (Act.state fun z => z.removeRangeByRank start stop)
  Store.deleteIfEmpty (arg argv 1)
  return .integer (removed.getD 0)

/-- `ZPOPMIN`, `ZPOPMAX`. -/
def zpop (name : String) (fromMax : Bool) : Handler := fun argv => do
  minArgs argv name 1
  let count ← Lists.popCount argv name
  checkType (arg argv 1) .zset
  let popped ← Store.writeZset (arg argv 1) (Act.state fun z => z.pop (count.getD 1) fromMax)
  Store.deleteIfEmpty (arg argv 1)
  let popped := popped.getD []
  return match count with
    | none =>
      match popped.getLast? with
      | some (member, score) => .array [.bulk member, .double score]
      | none => .array []
    | some _ => .scoredMembers popped

/-- The scores and members of `ZADD`. -/
def parsePairs : List (Bytes × Bytes) → Cmd (List (F64 × Bytes))
  | [] => pure []
  | (score, member) :: pairs => do
    let score ← floatArg score
    let rest ← parsePairs pairs
    pure ((score, member) :: rest)

/-- Add every pair, counting the new members. -/
def addPairs : List (F64 × Bytes) → Zset → Nat × Zset
  | [], z => (0, z)
  | (score, member) :: pairs, z =>
    let one := z.add member score
    let rest := addPairs pairs one.2
    (if one.1 then rest.1 + 1 else rest.1, rest.2)

/-- `ZADD`. -/
def zadd (config : Config) : Handler := fun argv => do
  minArgs argv "ZADD" 3
  let rest := argv.drop 2
  if rest.length % 2 ≠ 0 then throw syntaxError
  if config.zaddMaxPairs < rest.length / 2 then throw (.error "ERR too many score/member pairs")
  let pairs ← parsePairs (pairsOf rest)
  checkType (arg argv 1) .zset
  let added ← Store.getOrCreateZset (arg argv 1) (Act.state (addPairs pairs))
  let added ← expect "type checked" added
  return .integer added

/-- `handle`, arm by arm. -/
def arms (config : Config) : Arms :=
  [("ZADD", zadd config), ("ZSCORE", zscore), ("ZMSCORE", zmscore), ("ZINCRBY", zincrby),
    ("ZREM", zrem), ("ZCARD", zcard), ("ZRANK", zrank "ZRANK" Zset.rank),
    ("ZREVRANK", zrank "ZREVRANK" Zset.revRank), ("ZRANGE", zrange "ZRANGE" Zset.range),
    ("ZREVRANGE", zrange "ZREVRANGE" Zset.revRange),
    ("ZRANGEBYSCORE", zrangebyscore "ZRANGEBYSCORE" false),
    ("ZREVRANGEBYSCORE", zrangebyscore "ZREVRANGEBYSCORE" true), ("ZCOUNT", zcount),
    ("ZREMRANGEBYSCORE", zremrangebyscore), ("ZREMRANGEBYRANK", zremrangebyrank),
    ("ZPOPMIN", zpop "ZPOPMIN" false), ("ZPOPMAX", zpop "ZPOPMAX" true)]

end Klyro.Zsets
