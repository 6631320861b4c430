import IUBPatch.Apply

/-! # Programs on top of the library

What the command-line tool and the examples share: a program sees the files and writes to its two output
streams, and it looks at the errors of the library as values, so that nothing but an exception ends it
before its exit code. -/

namespace IUBPatch

/-- What a program finds and leaves: the files, and what it has written to its two output streams. -/
structure Process where
  world : World
  out : String := ""
  err : String := ""

/-- A program on its way; an exception that leaves it ends the process. -/
abbrev Program (α : Type) := Effect Process Empty StdException α

namespace Program

/-- `std::cout << text`. -/
def printOut (text : String) : Program Unit := fun p => (.ok (), { p with out := p.out ++ text })

/-- `std::cerr << text`. -/
def printErr (text : String) : Program Unit := fun p => (.ok (), { p with err := p.err ++ text })

/-- A call into the library: what it returns is a value, an error too. -/
def call {α : Type} (m : FileM α) : Program (Result α) := fun p =>
  match m p.world with
  | (.ok a, world) => (.ok (.ok a), { p with world })
  | (.error e, world) => (.ok (.error e), { p with world })
  | (.throws thrown, world) => (.throws thrown, { p with world })

variable {α β : Type}

@[simp] theorem printOut_bind (text : String) (f : Unit → Program β) (p : Process) :
    (printOut text >>= f) p = f () { p with out := p.out ++ text } := rfl

/-- The program behind a call into the library, read off the call's way out. -/
theorem call_bind (m : FileM α) (f : Result α → Program β) (p : Process) :
    (call m >>= f) p = match m p.world with
      | (.ok a, world) => f (.ok a) { p with world }
      | (.error e, world) => f (.error e) { p with world }
      | (.throws thrown, world) => (.throws thrown, { p with world }) := by
  rw [Effect.bind_apply, call]
  rcases m p.world with ⟨_ | _ | _, world⟩ <;> rfl

/-! ### Programs that only print -/

/-- The program comes back with `a`, and the files are as they were. -/
def Quiet (m : Program α) (a : α) : Prop := ∀ p, ∃ p', m p = (.ok a, p') ∧ p'.world = p.world

theorem quiet_pure (a : α) : Quiet (pure a) a := fun p => ⟨p, rfl, rfl⟩

theorem quiet_printOut (text : String) : Quiet (printOut text) () :=
  fun p => ⟨{ p with out := p.out ++ text }, rfl, rfl⟩

theorem quiet_printErr (text : String) : Quiet (printErr text) () :=
  fun p => ⟨{ p with err := p.err ++ text }, rfl, rfl⟩

theorem Quiet.bind {m : Program α} {a : α} {f : α → Program β} {b : β} (hm : Quiet m a)
    (hf : Quiet (f a) b) : Quiet (m >>= f) b := by
  intro p
  obtain ⟨p', hrun, hworld⟩ := hm p
  obtain ⟨p'', hrun', hworld'⟩ := hf p'
  exact ⟨p'', by rw [Effect.bind_apply_ok hrun, hrun'], hworld'.trans hworld⟩

/-- A program that prints and comes back with a value, such as an exit code. -/
theorem Quiet.then_pure {m : Program Unit} (hm : Quiet m ()) (b : β) :
    Quiet (m >>= fun _ => pure b) b :=
  hm.bind (quiet_pure b)

/-- Printing in one of two branches. -/
theorem quiet_ite (c : Prop) [Decidable c] {m m' : Program α} {a : α} (hm : Quiet m a)
    (hm' : Quiet m' a) : Quiet (if c then m else m') a := by
  split
  · exact hm
  · exact hm'

/-! ### Programs around one call -/

/-- The exit code of a program whose call came back so. -/
def exitCode : Call α → Outcome Empty StdException Nat
  | .ok _ => .ok 0
  | .error _ => .ok 1
  | .throws thrown => .throws thrown

/-- The exit code of the program and the file system behind it are `outcome` of the file system before
it. -/
def Comes (m : Program Nat) (outcome : World → Outcome Empty StdException Nat × World) : Prop :=
  ∀ p, ((m p).1, (m p).2.world) = outcome p.world

theorem Quiet.comes {m : Program Nat} {code : Nat} (h : Quiet m code) :
    Comes m fun world => (.ok code, world) := by
  intro p
  obtain ⟨p', hrun, hworld⟩ := h p
  rw [hrun, hworld]

theorem Quiet.bind_comes {m : Program α} {a : α} {f : α → Program Nat}
    {outcome : World → Outcome Empty StdException Nat × World} (hm : Quiet m a)
    (hf : Comes (f a) outcome) : Comes (m >>= f) outcome := by
  intro p
  obtain ⟨p', hrun, hworld⟩ := hm p
  rw [Effect.bind_apply_ok hrun, hf p', hworld]

/-- A program that makes a call, and prints and exits as it comes back. -/
theorem comes_call {m : FileM α} {f : Result α → Program Nat} (hok : ∀ a, Quiet (f (.ok a)) 0)
    (herror : ∀ e, Quiet (f (.error e)) 1) :
    Comes (call m >>= f) fun world => (exitCode (m world).1, (m world).2) := by
  intro p
  dsimp only
  rw [call_bind]
  rcases m p.world with ⟨a | e | thrown, world⟩
  · exact (hok a).comes { p with world }
  · exact (herror e).comes { p with world }
  · rfl

end Program

end IUBPatch
