import Mathlib.Data.List.Basic

/-!
# Reading a queue with a machine

A machine takes its input one element at a time and now and then puts something out: a framer, an
assembler, the receiving end of a protocol. `feed step s xs` is what becomes of it when it reads
the whole queue `xs`, and what it has put out by then. What is still to come out of a machine and
the queue before it is `(feed step s xs).2`: reading one element of the queue changes it only by
what comes out (`feed_cons`), and a new element can only add to its end (`feed_append`).
-/

universe u v w

variable {S : Type u} {I : Type v} {O : Type w}

/-- Read a queue, collecting what comes out. -/
def feed (step : S → I → S × Option O) : S → List I → S × List O
  | s, [] => (s, [])
  | s, x :: xs =>
    let (s, out) := step s x
    let (s, outs) := feed step s xs
    (s, out.toList ++ outs)

variable {step : S → I → S × Option O}

@[simp] theorem feed_nil (s : S) : feed step s [] = (s, []) := rfl

/-- The first input is fed first. -/
theorem feed_cons (s : S) (x : I) (xs : List I) :
    feed step s (x :: xs)
      = ((feed step (step s x).1 xs).1, (step s x).2.toList ++ (feed step (step s x).1 xs).2) := rfl

/-- Two stretches are fed one after the other. -/
theorem feed_append (s : S) (xs ys : List I) :
    feed step s (xs ++ ys) = ((feed step (feed step s xs).1 ys).1,
      (feed step s xs).2 ++ (feed step (feed step s xs).1 ys).2) := by
  induction xs generalizing s with
  | nil => rfl
  | cons x xs ih =>
    rw [List.cons_append, feed_cons, feed_cons, ih]
    simp only [List.append_assoc]

/-- A machine that ignores all of the queue. -/
theorem feed_of_ignores {s : S} {xs : List I} (h : ∀ x ∈ xs, step s x = (s, none)) :
    feed step s xs = (s, []) := by
  induction xs with
  | nil => rfl
  | cons x xs ih =>
    rw [feed_cons, h x List.mem_cons_self, ih fun y hy => h y (List.mem_cons_of_mem x hy)]
    rfl
