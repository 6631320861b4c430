import IUBPatch.Lib.Ownership
import IUBPatch.RangeReads

/-! # What mapped files keep of the system

The two `MappedFileReader::Impl`, with the handles and addresses that their `open` takes from the system
and their destructor gives back. Over any run of opening and closing readers, with any of the calls
failing, the readers keep exactly what they need, and each goes on showing the file it was opened on. -/

namespace IUBPatch

open Ownership

/-! ### POSIX -/

namespace Posix

/-- What a process holds of the system: descriptors, and memory by its address. -/
inductive Resource where
  | descriptor (fd : Nat)
  | memory (address : Nat)
  deriving DecidableEq, Repr

/-- What is behind it: an open file or mapped memory, with its contents. -/
inductive Backing where
  | file (contents : Bytes)
  | memory (contents : Bytes)
  deriving DecidableEq, Repr

/-- The resources of the process. -/
abbrev System := Resource → Option Backing

/-- `mapped_data`: null, `MAP_FAILED`, or where the file is mapped. -/
inductive Pointer where
  | null
  | mapFailed
  | address (address : Nat)
  deriving DecidableEq, Repr

/-- `MappedFileReader::Impl` of `mmap_posix.cc`; no descriptor is a negative one. -/
structure Impl where
  fd : Option Nat := none
  mappedData : Pointer := .null
  fileSize : UInt64 := 0
  deriving DecidableEq, Repr

/-- A call of `MappedFileReader::open`, and how the system calls in it come back: the descriptor of
`open` and the address of `mmap`, where they succeed, and whether `fstat` fails. -/
structure Opening where
  files : Path → Option Bytes
  path : Path
  descriptor : Option Nat
  statFails : Bool := false
  address : Option Nat

/-- `close`. -/
def close (system : System) (fd : Nat) : System := release system (.descriptor fd)

/-- `munmap`, of all that is mapped at the address. -/
def munmap (system : System) (address : Nat) (length : UInt64) : System :=
  match system (.memory address) with
  | some (.memory contents) =>
    -- a shorter length would leave the rest mapped
    if IUBPatch.size contents = length then release system (.memory address) else system
  | _ => system

/-- `~Impl`. -/
def Impl.destroy (impl : Impl) (system : System) : System :=
  let system :=
    match impl.mappedData with
    | .address address => munmap system address impl.fileSize
    | _ => system
  match impl.fd with
  | some fd => close system fd
  | none => system

/-- `MappedFileReader::open`, with `IUB_ENABLE_MMAP`. Where it returns an error, the `Impl` is destroyed
on the way out. -/
def Impl.open (opening : Opening) (system : System) : Result Impl × System :=
  let impl : Impl := {}
  match opening.files opening.path, opening.descriptor with
  | some contents, some fd =>
    let impl : Impl := { impl with fd := some fd }
    let system := acquire system (.descriptor fd) (.file contents)
    if opening.statFails then (.error (cannotStatError opening.path), impl.destroy system)
    else
      let impl : Impl := { impl with fileSize := IUBPatch.size contents }
      if impl.fileSize > 0 then
        match opening.address with
        | none =>
          let impl : Impl := { impl with mappedData := .mapFailed }
          (.error (mappingFailedError opening.path), impl.destroy system)
        | some address =>
          let impl : Impl := { impl with mappedData := .address address }
          (.ok impl, acquire system (.memory address) (.memory contents))
      else (.ok impl, system)
  | _, _ => (.error (cannotOpenError opening.path), impl.destroy system)

/-- What the reader shows: the contents at its address. No memory is at `MAP_FAILED`. -/
def Impl.view (impl : Impl) (system : System) : Option MappedFileReader :=
  match impl.mappedData with
  | .null => some { mappedData := none, fileSize := impl.fileSize }
  | .mapFailed => none
  | .address address =>
    match system (.memory address) with
    | some (.memory contents) => some { mappedData := some contents, fileSize := impl.fileSize }
    | _ => none

/-- The resources a reader keeps. -/
def Impl.resources (impl : Impl) : List Resource :=
  impl.fd.toList.map .descriptor ++
    match impl.mappedData with
    | .address address => [.memory address]
    | _ => []

/-- Readers are created by `open` and destroyed by the destructor. -/
def readers : Manager Resource Backing Impl Opening ErrorInfo where
  create := Impl.open
  destroy := Impl.destroy

/-- The system hands out descriptors and addresses that are free. -/
def Opening.Fresh (opening : Opening) (system : System) : Prop :=
  (∀ fd, opening.descriptor = some fd → system (.descriptor fd) = none) ∧
    ∀ address, opening.address = some address → system (.memory address) = none

/-- The reader as it is without a system. -/
def Opening.reader (opening : Opening) : Result MappedFileReader :=
  MappedFileReader.openMap
    { openFails := opening.descriptor.isNone
      statFails := opening.statFails
      mmapFails := opening.address.isNone } opening.files opening.path

/-- What a reader stands for, and what it keeps. -/
inductive Stands : Impl → MappedFileReader → List (Resource × Backing) → Prop
  | mapped (fd address : Nat) (contents : Bytes) :
      Stands
        { fd := some fd, mappedData := .address address, fileSize := IUBPatch.size contents }
        { mappedData := some contents, fileSize := IUBPatch.size contents }
        [(.descriptor fd, .file contents), (.memory address, .memory contents)]
  | unmapped (fd : Nat) (contents : Bytes) :
      Stands { fd := some fd, fileSize := IUBPatch.size contents }
        { mappedData := none, fileSize := IUBPatch.size contents } [(.descriptor fd, .file contents)]

/-- **What `open` comes to**: an error, with the system as it was, or a reader that keeps what was
taken. -/
theorem open_cases {opening : Opening} {system : System} (hfresh : opening.Fresh system) :
    (∃ e, opening.reader = .error e ∧ Impl.open opening system = (.error e, system)) ∨
      ∃ impl reader holdings, opening.reader = .ok reader ∧ Stands impl reader holdings ∧
        (holdings.map Prod.fst).Nodup ∧ (∀ holding ∈ holdings, system holding.1 = none) ∧
        Impl.open opening system = (.ok impl, acquireAll system holdings) := by
  obtain ⟨files, path, descriptor, statFails, address⟩ := opening
  obtain ⟨hdescriptor, haddress⟩ := hfresh
  simp only [Opening.reader, MappedFileReader.openMap, Impl.open]
  cases hfile : files path with
  | none => exact .inl ⟨_, rfl, rfl⟩
  | some contents =>
    cases descriptor with
    | none => exact .inl ⟨_, rfl, rfl⟩
    | some fd =>
      -- the descriptor was free, so that closing it leaves the system as it was
      have hfd := hdescriptor fd rfl
      cases statFails with
      | true => exact .inl ⟨_, rfl, by simp [Impl.destroy, close, hfd]⟩
      | false =>
        by_cases hempty : IUBPatch.size contents > 0
        · cases address with
          | none =>
            exact .inl ⟨mappingFailedError path, by simp [hempty],
              by simp [hempty, Impl.destroy, close, hfd]⟩
          | some address =>
            refine .inr ⟨_, _, _, by simp [hempty], .mapped fd address contents, by simp, ?_, ?_⟩
            · simp [hfd, haddress address rfl]
            · simp [hempty, acquireAll, acquire]
        · refine .inr ⟨_, _, _, by simp [hempty], .unmapped fd contents, by simp, ?_, ?_⟩
          · simp [hfd]
          · simp [hempty, acquireAll]

/-- Every way out of `open` gives back what it does not keep. -/
theorem sound_readers : Sound readers Opening.Fresh Opening.reader Stands where
  created := open_cases
  destroyed := by
    intro impl reader holdings system hstands hheld
    cases hstands with
    | mapped fd address contents =>
      have hmapped := hheld (.memory address, .memory contents) (by simp)
      -- the memory is given back first
      simp [readers, Impl.destroy, munmap, close, hmapped, releaseAll,
        release_comm system (.memory address)]
    | unmapped fd contents => simp [readers, Impl.destroy, close, releaseAll]

/-- A reader shows what it stands for. -/
theorem view_of_stands {impl : Impl} {reader : MappedFileReader} {holdings : List (Resource × Backing)}
    {system : System} (h : Stands impl reader holdings)
    (hheld : ∀ holding ∈ holdings, system holding.1 = some holding.2) :
    impl.view system = some reader := by
  cases h with
  | mapped fd address contents =>
    have hmapped := hheld (.memory address, .memory contents) (by simp)
    simp [Impl.view, hmapped]
  | unmapped fd contents => rfl

/-- A reader keeps the resources it should. -/
theorem resources_of_stands {impl : Impl} {reader : MappedFileReader}
    {holdings : List (Resource × Backing)} (h : Stands impl reader holdings) :
    impl.resources = holdings.map Prod.fst := by
  cases h <;> rfl

end Posix

/-! ### Windows -/

namespace Windows

/-- What a process holds of the system: handles, and memory by its address. -/
inductive Resource where
  | handle (handle : Nat)
  | memory (address : Nat)
  deriving DecidableEq, Repr

/-- What is behind it: an open file, a file mapping or a view of one, with the contents. -/
inductive Backing where
  | file (contents : Bytes)
  | mapping (contents : Bytes)
  | view (contents : Bytes)
  deriving DecidableEq, Repr

/-- The resources of the process. -/
abbrev System := Resource → Option Backing

/-- `MappedFileReader::Impl` of `mmap_windows.cc`; `INVALID_HANDLE_VALUE` and null are none. -/
structure Impl where
  fileHandle : Option Nat := none
  mappingHandle : Option Nat := none
  mappedData : Option Nat := none
  fileSize : UInt64 := 0
  deriving DecidableEq, Repr

/-- A call of `MappedFileReader::open`, and how the system calls in it come back: the handles and the
address, where the calls succeed, and whether `GetFileSizeEx` fails. -/
structure Opening where
  files : Path → Option Bytes
  path : Path
  fileHandle : Option Nat
  sizeFails : Bool := false
  mappingHandle : Option Nat
  address : Option Nat

/-- `CloseHandle`. -/
def closeHandle (system : System) (handle : Nat) : System := release system (.handle handle)

/-- `UnmapViewOfFile`. -/
def unmapViewOfFile (system : System) (address : Nat) : System := release system (.memory address)

/-- `~Impl`. -/
def Impl.destroy (impl : Impl) (system : System) : System :=
  let system :=
    match impl.mappedData with
    | some address => unmapViewOfFile system address
    | none => system
  let system :=
    match impl.mappingHandle with
    | some handle => closeHandle system handle
    | none => system
  match impl.fileHandle with
  | some handle => closeHandle system handle
  | none => system

/-- `MappedFileReader::open`, with `IUB_ENABLE_MMAP`. Where it returns an error, the `Impl` is destroyed
on the way out. -/
def Impl.open (opening : Opening) (system : System) : Result Impl × System :=
  let impl : Impl := {}
  match opening.files opening.path, opening.fileHandle with
  | some contents, some fileHandle =>
    let impl : Impl := { impl with fileHandle := some fileHandle }
    let system := acquire system (.handle fileHandle) (.file contents)
    if opening.sizeFails then
      (.error { code := .fileReadError, message := "Cannot get file size: " ++ opening.path },
        impl.destroy system)
    else
      let impl : Impl := { impl with fileSize := IUBPatch.size contents }
      if impl.fileSize > 0 then
        match opening.mappingHandle with
        | none =>
          (.error { code := .mmapFailed, message := "Cannot create file mapping: " ++ opening.path },
            impl.destroy system)
        | some mappingHandle =>
          let impl : Impl := { impl with mappingHandle := some mappingHandle }
          let system := acquire system (.handle mappingHandle) (.mapping contents)
          match opening.address with
          | none =>
            (.error { code := .mmapFailed, message := "Cannot map view of file: " ++ opening.path },
              impl.destroy system)
          | some address =>
            let impl : Impl := { impl with mappedData := some address }
            (.ok impl, acquire system (.memory address) (.view contents))
      else (.ok impl, system)
  | _, _ => (.error (cannotOpenError opening.path), impl.destroy system)

/-- What the reader shows: the contents at its address. -/
def Impl.view (impl : Impl) (system : System) : Option MappedFileReader :=
  match impl.mappedData with
  | none => some { mappedData := none, fileSize := impl.fileSize }
  | some address =>
    match system (.memory address) with
    | some (.view contents) => some { mappedData := some contents, fileSize := impl.fileSize }
    | _ => none

/-- The resources a reader keeps. -/
def Impl.resources (impl : Impl) : List Resource :=
  impl.fileHandle.toList.map .handle ++ impl.mappingHandle.toList.map .handle ++
    impl.mappedData.toList.map .memory

/-- Readers are created by `open` and destroyed by the destructor. -/
def readers : Manager Resource Backing Impl Opening ErrorInfo where
  create := Impl.open
  destroy := Impl.destroy

/-- The system hands out handles and addresses that are free, and no handle twice. -/
def Opening.Fresh (opening : Opening) (system : System) : Prop :=
  (∀ handle, opening.fileHandle = some handle → system (.handle handle) = none) ∧
    (∀ handle, opening.mappingHandle = some handle →
      system (.handle handle) = none ∧ opening.fileHandle ≠ some handle) ∧
    ∀ address, opening.address = some address → system (.memory address) = none

/-- The reader as it is without a system. -/
def Opening.reader (opening : Opening) : Result MappedFileReader :=
  MappedFileReader.openMapWindows
    { openFails := opening.fileHandle.isNone
      sizeFails := opening.sizeFails
      mappingFails := opening.mappingHandle.isNone
      viewFails := opening.address.isNone } opening.files opening.path

/-- What a reader stands for, and what it keeps. -/
inductive Stands : Impl → MappedFileReader → List (Resource × Backing) → Prop
  | mapped (fileHandle mappingHandle address : Nat) (contents : Bytes) :
      Stands
        { fileHandle := some fileHandle
          mappingHandle := some mappingHandle
          mappedData := some address
          fileSize := IUBPatch.size contents }
        { mappedData := some contents, fileSize := IUBPatch.size contents }
        [(.handle fileHandle, .file contents), (.handle mappingHandle, .mapping contents),
          (.memory address, .view contents)]
  | unmapped (fileHandle : Nat) (contents : Bytes) :
      Stands { fileHandle := some fileHandle, fileSize := IUBPatch.size contents }
        { mappedData := none, fileSize := IUBPatch.size contents } [(.handle fileHandle, .file contents)]

/-- **What `open` comes to**: an error, with the system as it was, or a reader that keeps what was
taken. -/
theorem open_cases {opening : Opening} {system : System} (hfresh : opening.Fresh system) :
    (∃ e, opening.reader = .error e ∧ Impl.open opening system = (.error e, system)) ∨
      ∃ impl reader holdings, opening.reader = .ok reader ∧ Stands impl reader holdings ∧
        (holdings.map Prod.fst).Nodup ∧ (∀ holding ∈ holdings, system holding.1 = none) ∧
        Impl.open opening system = (.ok impl, acquireAll system holdings) := by
  obtain ⟨files, path, fileHandle, sizeFails, mappingHandle, address⟩ := opening
  obtain ⟨hfileHandle, hmappingHandle, haddress⟩ := hfresh
  simp only [Opening.reader, MappedFileReader.openMapWindows, Impl.open]
  cases hfile : files path with
  | none => exact .inl ⟨_, rfl, rfl⟩
  | some contents =>
    cases fileHandle with
    | none => exact .inl ⟨_, rfl, rfl⟩
    | some fileHandle =>
      -- the handle was free, so that closing it leaves the system as it was
      have hfree := hfileHandle fileHandle rfl
      cases sizeFails with
      | true => exact .inl ⟨_, rfl, by simp [Impl.destroy, closeHandle, hfree]⟩
      | false =>
        by_cases hempty : IUBPatch.size contents > 0
        · cases mappingHandle with
          | none =>
            exact .inl ⟨_, by simp [hempty]; rfl,
              by simp [hempty, Impl.destroy, closeHandle, hfree]⟩
          | some mappingHandle =>
            -- taking the file's handle leaves the mapping's free, so both can be undone in turn
            obtain ⟨hmapping, hother⟩ := hmappingHandle mappingHandle rfl
            have hne : mappingHandle ≠ fileHandle := fun heq => hother (congrArg some heq.symm)
            have hstill : acquire system (.handle fileHandle) (.file contents) (.handle mappingHandle)
                = none := by
              simp [acquire, hne, hmapping]
            cases address with
            | none =>
              exact .inl ⟨_, by simp [hempty]; rfl,
                by simp [hempty, Impl.destroy, closeHandle, hstill, hfree]⟩
            | some address =>
              refine .inr ⟨_, _, _, by simp [hempty],
                .mapped fileHandle mappingHandle address contents, by simp [hne.symm], ?_, ?_⟩
              · simp [hfree, hmapping, haddress address rfl]
              · simp [hempty, acquireAll]
        · refine .inr ⟨_, _, _, by simp [hempty], .unmapped fileHandle contents, by simp, ?_, ?_⟩
          · simp [hfree]
          · simp [hempty, acquireAll]

/-- Every way out of `open` gives back what it does not keep. -/
theorem sound_readers : Sound readers Opening.Fresh Opening.reader Stands where
  created := open_cases
  destroyed := by
    intro impl reader holdings system hstands hheld
    cases hstands with
    | mapped fileHandle mappingHandle address contents =>
      -- the view is given back first, and the file last
      simp only [readers, Impl.destroy, unmapViewOfFile, closeHandle, releaseAll, List.map_cons,
        List.map_nil, List.foldl_cons, List.foldl_nil]
      rw [release_comm system (Resource.memory address), release_comm _ (Resource.memory address),
        release_comm system (Resource.handle mappingHandle)]
    | unmapped fileHandle contents => simp [readers, Impl.destroy, closeHandle, releaseAll]

/-- A reader shows what it stands for. -/
theorem view_of_stands {impl : Impl} {reader : MappedFileReader} {holdings : List (Resource × Backing)}
    {system : System} (h : Stands impl reader holdings)
    (hheld : ∀ holding ∈ holdings, system holding.1 = some holding.2) :
    impl.view system = some reader := by
  cases h with
  | mapped fileHandle mappingHandle address contents =>
    have hmapped := hheld (.memory address, .view contents) (by simp)
    simp [Impl.view, hmapped]
  | unmapped fileHandle contents => rfl

/-- A reader keeps the resources it should. -/
theorem resources_of_stands {impl : Impl} {reader : MappedFileReader}
    {holdings : List (Resource × Backing)} (h : Stands impl reader holdings) :
    impl.resources = holdings.map Prod.fst := by
  cases h <;> rfl

end Windows

/-! ### Either platform -/

/-- **Mapped files keep exact accounts on both platforms.** -/
theorem mappedFiles_keepAccounts :
    Posix.readers.KeepsAccounts Posix.Opening.Fresh Posix.Opening.reader Posix.Impl.view
        Posix.Impl.resources ∧
      Windows.readers.KeepsAccounts Windows.Opening.Fresh Windows.Opening.reader Windows.Impl.view
        Windows.Impl.resources :=
  ⟨Posix.sound_readers.keepsAccounts Posix.view_of_stands Posix.resources_of_stands,
    Windows.sound_readers.keepsAccounts Windows.view_of_stands Windows.resources_of_stands⟩

/-- A reader of a file of one byte, as descriptor 3 and at the address 64. -/
def oneByteOpening : Posix.Opening where
  files := (FileReader.oneFile "rom" [7]).files
  path := "rom"
  descriptor := some 3
  address := some 64

/-- The same descriptor twice, the second time without a mapping. -/
theorem mappedFiles_keepAccounts_descriptorReused :
    let commands : List (Command Posix.Opening) :=
      [.create oneByteOpening, .destroy 0, .create { oneByteOpening with address := none }]
    (Posix.readers.run { system := fun _ => none, live := [] } commands).2.system = fun _ => none := by
  intro commands
  have hhonest : Posix.readers.Honest Posix.Opening.Fresh { system := fun _ => none, live := [] }
      commands := by
    refine ⟨⟨fun _ _ => rfl, fun _ _ => rfl⟩, trivial, ⟨?_, ?_⟩, trivial⟩
    · rintro fd ⟨⟩
      decide
    · rintro address ⟨⟩
  obtain ⟨-, -, -, -, -, hempty⟩ := mappedFiles_keepAccounts.1 (fun _ => none) commands hhonest
  exact hempty (by decide)

end IUBPatch
