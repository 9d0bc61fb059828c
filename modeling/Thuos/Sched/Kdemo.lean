/-
The scheduler as the shell shows it (kernel/sched/sched.c): a table of
eight slots, three tasks, and a demonstration that picks ten times and lets
each slice run out.

Its lines of text around what it prints are left out. The loop that lets a
slice run out has no bound of its own, so it is given a number of turns, and
is `none` where they are not enough.
-/
import Thuos.Sched.Core

namespace Thuos.Sched

def NTASK : Nat := 8

/-- `sched_kinit`. -/
def schedKinit : SchedT :=
  let s := schedInit NTASK
  let s := (schedAdd s 0 5).1
  let s := (schedAdd s 1 3).1
  (schedAdd s 2 2).1

/-- `while (sched_on_tick(&sched) == 0) { }`. -/
def elapse : Nat → SchedT → Option SchedT
  | 0, _ => none
  | turns + 1, s =>
      let (s, expired) := schedOnTick s
      if expired = 0 then elapse turns s else some s

/-- What `sched_kdemo` prints at a pick. -/
inductive KdemoItem
  | task (id : Int)
  | idle
deriving DecidableEq, Repr

/-- The loop of `sched_kdemo`, over a number of picks. -/
def kdemoLoop (turns : Nat) : Nat → SchedT → Option (List KdemoItem × SchedT)
  | 0, s => some ([], s)
  | n + 1, s =>
      let (s, id) := schedPickNext s
      if id < 0 then some ([.idle], s)
      else
        (elapse turns s).bind fun s =>
          (kdemoLoop turns n s).map fun (items, s) => (.task id :: items, s)

/-- `sched_kdemo`. -/
def schedKdemo (turns : Nat) (s : SchedT) :
    Option (List KdemoItem × SchedT) := kdemoLoop turns 10 s

end Thuos.Sched
