import Mathlib
import Tape.Wire.Messages

/-!
# Plans, their differences, and the commands that realize them

`tape.recorder.planner`, as far as one connection uses it: the difference of
two plans as a list of changes, the cut of a change into pieces that one
command can carry, and the commands of a piece.

Sets of tickers are finite sets. Where the source sorts one into a tuple, so
does `sortedTickers`.
-/

namespace Tape

/-- Markets that are subscribed to together. -/
structure Group where
  groupId : String
  connId : Int
  tickers : Finset Ticker
  deriving DecidableEq

/-- The groups of all connections. -/
structure Plan where
  groups : List Group

/-- A difference between two plans. -/
inductive PlanChange where
  | addGroup (group : Group)
  | removeGroup (groupId : String)
  | addMarkets (groupId : String) (tickers : List Ticker)
  | removeMarkets (groupId : String) (tickers : List Ticker)
  deriving DecidableEq

/-- What is done to a subscription. -/
inductive SubscriptionAction where
  | addMarkets
  | deleteMarkets
  | getSnapshot
  deriving DecidableEq, Repr

/-- What is sent to the exchange. -/
inductive Command where
  | subscribe (channels : List String) (marketTickers : Option (List Ticker))
      (useYesPrice : Option Bool)
  | updateSubscription (sid : Sid) (action : SubscriptionAction) (marketTickers : List Ticker)
  | unsubscribe (sids : List Sid)
  deriving DecidableEq, Repr

/-- The exceptions of the planner. -/
inductive PlanError where
  | noChannels
  | noSid (action groupId : String)
  deriving DecidableEq, Repr

/-- `tuple(sorted(tickers))`. -/
def sortedTickers (s : Finset Ticker) : List Ticker :=
  Quot.liftOn s.val (fun l => l.insertionSort (· ≤ ·)) fun l l' (h : l.Perm l') => by
    refine List.Perm.eq_of_pairwise' (List.pairwise_insertionSort _ l)
      (List.pairwise_insertionSort _ l') ?_
    exact (List.perm_insertionSort _ l).trans (h.trans (List.perm_insertionSort _ l').symm)

@[simp] theorem mem_sortedTickers {s : Finset Ticker} {t : Ticker} :
    t ∈ sortedTickers s ↔ t ∈ s := by
  obtain ⟨v, hv⟩ := s
  induction v using Quot.inductionOn with
  | h l => exact List.mem_insertionSort _

theorem nodup_sortedTickers (s : Finset Ticker) : (sortedTickers s).Nodup := by
  obtain ⟨v, hv⟩ := s
  induction v using Quot.inductionOn with
  | h l => exact (List.perm_insertionSort _ l).nodup_iff.mpr hv

theorem sortedTickers_eq_nil_iff {s : Finset Ticker} : sortedTickers s = [] ↔ s = ∅ := by
  rw [List.eq_nil_iff_forall_not_mem, Finset.eq_empty_iff_forall_notMem]
  simp

/-- `Plan.by_id`. -/
def Plan.byId (p : Plan) : Dict String Group :=
  p.groups.foldl (fun d g => d.set g.groupId g) ∅

/-- `_must_rebuild`. -/
def mustRebuild (old new : Group) : Bool :=
  new.connId ≠ old.connId ∨ old.tickers ∩ new.tickers = ∅

/-- What `diff` does with one group of the running plan: the markets dropped,
the groups dropped and the markets added. -/
def diffRunning (wanted : Dict String Group) (old : Group) :
    List PlanChange × List PlanChange × List PlanChange :=
  match wanted.get? old.groupId with
  | none => ([], [.removeGroup old.groupId], [])
  | some new =>
      if mustRebuild old new then ([], [.removeGroup old.groupId], [])
      else
        let gone := old.tickers \ new.tickers
        let added := new.tickers \ old.tickers
        (if gone = ∅ then [] else [.removeMarkets old.groupId (sortedTickers gone)], [],
          if added = ∅ then [] else [.addMarkets old.groupId (sortedTickers added)])

/-- Whether `diff` subscribes a wanted group: it is new, or it is rebuilt. -/
def diffWanted (running : Dict String Group) (new : Group) : List PlanChange :=
  match running.get? new.groupId with
  | none => [.addGroup new]
  | some old => if mustRebuild old new then [.addGroup new] else []

/-- The groups of a plan in the order of their ids. -/
def inIdOrder (groups : Dict String Group) : List Group :=
  (groups.entries.insertionSort fun x y => x.1 ≤ y.1).map Prod.snd

/-- What is to be changed, removals of groups and markets first. -/
def diff (current desired : Plan) : List PlanChange :=
  let running := current.byId
  let wanted := desired.byId
  let changes := (inIdOrder running).map (diffRunning wanted)
  (changes.flatMap fun c => c.1) ++ (changes.flatMap fun c => c.2.1) ++
    ((inIdOrder wanted).flatMap (diffWanted running)) ++ (changes.flatMap fun c => c.2.2)

/-- A list cut into consecutive pieces of `n` values, the last one shorter;
the fuel is the length of the list. -/
def chunksOf {α : Type*} (n : Nat) : Nat → List α → List (List α)
  | _, [] => []
  | 0, _ => []
  | fuel + 1, a :: l => (a :: l).take n :: chunksOf n fuel ((a :: l).drop n)

/-- `split_change`, for a limit of at least one. -/
def splitChange (maxMarkets : Nat) : PlanChange → List PlanChange
  | .removeGroup groupId => [.removeGroup groupId]
  | .addGroup group =>
      let tickers := sortedTickers group.tickers
      if tickers.length ≤ maxMarkets then [.addGroup group]
      else
        let first := { group with tickers := (tickers.take maxMarkets).toFinset }
        .addGroup first ::
          (chunksOf maxMarkets tickers.length (tickers.drop maxMarkets)).map
            (.addMarkets first.groupId)
  | .addMarkets groupId tickers =>
      if tickers.length ≤ maxMarkets then [.addMarkets groupId tickers]
      else (chunksOf maxMarkets tickers.length tickers).map (.addMarkets groupId)
  | .removeMarkets groupId tickers =>
      if tickers.length ≤ maxMarkets then [.removeMarkets groupId tickers]
      else (chunksOf maxMarkets tickers.length tickers).map (.removeMarkets groupId)

/-- `_sids`: the subscription ids of a group, ascending and without repeats. -/
def sidsOf (sidOf : Dict String (List Sid)) (groupId action : String) :
    Except PlanError (List Sid) :=
  match (sidOf.getD groupId []).dedup.insertionSort (· ≤ ·) with
  | [] => .error (.noSid action groupId)
  | sid :: rest => .ok (sid :: rest)

/-- The commands of one change. -/
def commandsOf (channels : List String) (useYesPrice : Option Bool)
    (sidOf : Dict String (List Sid)) : PlanChange → Except PlanError (List Command)
  | .addGroup group =>
      .ok [.subscribe channels (some (sortedTickers group.tickers)) useYesPrice]
  | .removeGroup groupId =>
      match sidsOf sidOf groupId "unsubscribe" with
      | .error e => .error e
      | .ok sids => .ok [.unsubscribe sids]
  | .addMarkets groupId tickers =>
      match sidsOf sidOf groupId "add_markets" with
      | .error e => .error e
      | .ok sids => .ok (sids.map fun sid => .updateSubscription sid .addMarkets tickers)
  | .removeMarkets groupId tickers =>
      match sidsOf sidOf groupId "delete_markets" with
      | .error e => .error e
      | .ok sids => .ok (sids.map fun sid => .updateSubscription sid .deleteMarkets tickers)

/-- The commands of some changes. -/
def toCommands (changes : List PlanChange) (channels : List String)
    (useYesPrice : Option Bool) (sidOf : Dict String (List Sid)) :
    Except PlanError (List Command) :=
  if channels = [] then .error .noChannels
  else (changes.mapM (commandsOf channels useYesPrice sidOf)).map List.flatten

example : splitChange 2 (.addMarkets "g0001" ["KXA", "KXB", "KXC"]) =
    [.addMarkets "g0001" ["KXA", "KXB"], .addMarkets "g0001" ["KXC"]] := by decide

end Tape
