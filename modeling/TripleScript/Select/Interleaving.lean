import TripleScript.Select.Answer

/-!
# Two sides and a channel

`SelectPlan.run` lets the two sides of a query take turns. They need not: the
first scan and the join are two parties that share a channel and nothing
else, and any order of their moves can happen. This is the query with all of
these orders.

The scan reads a page and puts its triples into the channel, which has room
for as many triples as a page; while there is no room it waits. Before each
triple it looks whether it has been stopped, and when it leaves, the channel
is closed. The join looks whether the run has been cancelled, and if not, it
looks into the channel: it takes a triple and extends it, or there is none
yet, or the channel is closed and empty and the answer is there. These are
two looks, one after the other. A third party can cancel the run between any
two moves, and that stops the scan too.

A move is what one party does at once, and an interleaving is a list of
moves: `SelectTask.after`.
-/

namespace TripleScript

/-- A query that is to be answered from a store. -/
structure SelectTask where
  /-- Its plan. -/
  plan : SelectPlan
  /-- The first scan of the plan. -/
  first : ScanStep
  /-- The other scans. -/
  rest : List ScanStep
  /-- These are the scans of the plan. -/
  steps_eq : plan.steps = first :: rest
  /-- The store. -/
  memory : MemoryStore
  /-- How the store finds pages. -/
  access : Access := .indexed

/-- How far the first scan is. -/
inductive Producer where
  /-- It is about to read the page behind a triple, or the first page. -/
  | reading (after : Option Triple)
  /-- It is about to look whether it has been stopped, with these triples of a
  page before it; the page has a last triple, if any, and may have been
  full. -/
  | looking (page : List Triple) (last : Option Triple) (full : Bool)
  /-- It has not been stopped and is about to hand on the triple. -/
  | sending (t : Triple) (page : List Triple) (last : Option Triple) (full : Bool)
  /-- It has left its loop and still holds the channel open. -/
  | leaving
  /-- It is gone, and the channel is closed. -/
  | gone
deriving DecidableEq, Inhabited, Repr

/-- Whether the channel is closed. -/
def Producer.isGone : Producer → Bool
  | gone => true
  | _ => false

/-- How far the join is. -/
inductive Consumer where
  /-- It is about to look whether the run has been cancelled. -/
  | looking (c : Collector)
  /-- It has seen no cancellation and is about to look into the channel. -/
  | receiving (c : Collector)
  /-- It has rows to extend, each by some scans. -/
  | extending (work : List (Row × List ScanStep)) (c : Collector)
  /-- It has left its loop, has stopped the scan and waits until that is
  gone. -/
  | closing (result : Except ExecuteError Collector)
  /-- It has returned. -/
  | returned (result : Except ExecuteError Table)

/-- Whether it has left its loop. -/
def Consumer.hasLeft : Consumer → Bool
  | closing _ => true
  | returned _ => true
  | _ => false

/-- What the parties share, and how far each of them is. -/
structure Parties where
  /-- The first scan. -/
  producer : Producer
  /-- The triples in the channel, the oldest first. -/
  channel : List Triple
  /-- The join. -/
  consumer : Consumer
  /-- Whether the run has been cancelled. -/
  cancelled : Bool

/-- The scan is stopped when the run is cancelled and when the join has
left. -/
def Parties.stopped (s : Parties) : Bool :=
  s.cancelled || s.consumer.hasLeft

/-- The answer, once the join has returned one. -/
def Parties.answer? (s : Parties) : Option Table :=
  match s.consumer with
  | .returned (.ok table) => some table
  | _ => none

/-- Who makes a move. -/
inductive Move where
  /-- The first scan. -/
  | produce
  /-- The join. -/
  | consume
  /-- Whoever cancels the run. -/
  | cancel
deriving DecidableEq, Inhabited, Repr

namespace SelectTask

variable (task : SelectTask)

/-- The lookup of the first scan. -/
def lookup : Lookup :=
  task.first.pattern.lookup (Row.empty task.plan.slotCount)

/-- The parties before any move. -/
def start : Parties :=
  { producer := .reading none
    channel := []
    consumer := .looking (.ofPlan task.plan)
    cancelled := false }

/-- The move of the first scan. -/
def produce (s : Parties) : Parties :=
  match s.producer with
  | .reading after =>
    let page := task.memory.page task.access task.lookup after task.plan.capacity
    { s with producer := .looking page page.getLast? (task.plan.capacity ≤ page.length) }
  | .looking [] last full =>
    { s with producer := if full then .reading last else .leaving }
  | .looking (t :: page) last full =>
    { s with producer := if s.stopped then .leaving else .sending t page last full }
  | .sending t page last full =>
    if s.consumer.hasLeft then { s with producer := .leaving }
    else if s.channel.length < task.plan.capacity then
      { s with channel := s.channel ++ [t], producer := .looking page last full }
    else { s with producer := .looking (t :: page) last full }
  | .leaving => { s with producer := .gone }
  | .gone => s

/-- The rows that a triple of the first scan begins. -/
def begun (t : Triple) : List (Row × List ScanStep) :=
  (task.first.pattern.bind t (Row.empty task.plan.slotCount)).toList.map (·, task.rest)

/-- The rows that the triples of a scan make of a row. -/
def extended (row : Row) (step : ScanStep) (steps : List ScanStep) :
    List (Row × List ScanStep) :=
  ((task.memory.scan (step.pattern.lookup row)).filterMap (step.pattern.bind · row)).map
    (·, steps)

/-- The next step of extending rows. Before a scan the join looks whether the
run has been cancelled. -/
def extendNext (cancelled : Bool) (c : Collector) : List (Row × List ScanStep) → Consumer
  | [] => .looking c
  | (row, []) :: work =>
    match c.push row with
    | .error e => .closing (.error e)
    | .ok (false, c) => .closing (.ok c)
    | .ok (true, c) => .extending work c
  | (row, step :: steps) :: work =>
    if cancelled then .closing (.error .cancelled)
    else .extending (task.extended row step steps ++ work) c

/-- The move of the join. -/
def consume (s : Parties) : Parties :=
  match s.consumer with
  | .looking c =>
    { s with consumer := if s.cancelled then .closing (.error .cancelled) else .receiving c }
  | .receiving c =>
    match s.channel with
    | t :: channel => { s with channel, consumer := .extending (task.begun t) c }
    | [] => { s with consumer := if s.producer.isGone then .closing (.ok c) else .looking c }
  | .extending work c => { s with consumer := task.extendNext s.cancelled c work }
  | .closing result =>
    if s.producer.isGone then { s with consumer := .returned (result.map task.plan.answer) }
    else s
  | .returned _ => s

/-- **One move.** -/
def move (s : Parties) : Move → Parties
  | .produce => task.produce s
  | .consume => task.consume s
  | .cancel => { s with cancelled := true }

/-- **The parties after some moves.** -/
def after (moves : List Move) : Parties :=
  moves.foldl task.move task.start

end SelectTask

end TripleScript
