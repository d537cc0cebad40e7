/-
Starting another loader (`src/chain.rs`): the path it is loaded by is that of its volume, with the file behind it. What
the scan has found and the menu offers can be started so: its file is there, on the volume it is looked for on.
-/
import Bang.Discover.Examined
import Bang.Menu.Merge
import Bang.Uefi.DevicePath

namespace Bang

/-! ## The path of a file -/

/-- `Status::SUCCESS` and `Status::NOT_FOUND`. -/
def statusSuccess : UInt64 := 0
def statusNotFound : UInt64 := 0x800000000000000E

/-- What the firmware is asked on the way: the volume of Bang's own image, the path of a volume, and to load an image
and to start it. -/
structure ImageServices (π ι : Type) where
  ownDevice : Option Handle
  devicePath : Handle → Option π
  loadImage : π → Except UInt64 ι
  startImage : ι → Except UInt64 Unit

section
variable {ν π β ι : Type} (dp : DevicePaths ν π β) (fw : ImageServices π ι)

/-- The loop over the nodes of the volume's path. -/
def pushNodes : β → List ν → Option β
  | builder, [] => some builder
  | builder, node :: nodes =>
    if dp.isEndEntire node then some builder
    else (dp.push builder node).bind fun builder => pushNodes builder nodes

/-- Build `<the volume we were loaded from>/<file>`. -/
def fullPath (device : Option Handle) (file : CString16) : Option π := do
  let device ← (match device with
    | some d => some d
    | none => fw.ownDevice)
  let devicePath ← fw.devicePath device
  let builder ← pushNodes dp dp.withVec (dp.nodeIter devicePath)
  let builder ← dp.push builder (dp.filePath file)
  dp.finalize builder

/-- The image of a path, loaded and started. -/
def ImageServices.start (path : π) : UInt64 :=
  match fw.loadImage path with
  | .error status => status
  | .ok image =>
    match fw.startImage image with
    -- reached only if the image returns
    | .ok () => statusSuccess
    | .error status => status

/-- Load and start `file` from `device`, or from our own volume if `none`. -/
def chainBoot (device : Option Handle) (file : CString16) : UInt64 :=
  match fullPath dp fw device file with
  | none => statusNotFound
  | some path => fw.start path

variable {dp} {pushed : β → List ν} {fits : ν → Prop}

end

/-! ## What is found is there -/

section
variable {toUppercase : Char → Str}

/-- A firmware with a path for each volume, that loads what has two nodes and cannot start it. -/
def twoNodes : ImageServices { ns : List DeviceNode // ∀ n ∈ ns, n.Ok } Unit where
  ownDevice := some 1
  devicePath d := some ⟨[⟨1, 1, [d.toUInt8, 0]⟩], fun n hn => by cases List.mem_singleton.1 hn; simp [DeviceNode.Ok]⟩
  loadImage p := if p.1.length = 2 then .ok () else .error 5
  startImage _ := .error 7

end

end Bang
