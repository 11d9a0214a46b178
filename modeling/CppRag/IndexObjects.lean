import CppRag.IndexReader
import CppRag.Foundation.Ownership

/-!
The objects of class `MmapIndex` with their three fields: construction, moves, destruction
and the accessors' check. Descriptors and mappings are resources of the operating system,
whose answers to `open`, `fstat` and `mmap` are data of each construction.
-/
namespace CppRag
open Observed Function

abbrev Descriptor := Int

/-- A mapping as `munmap` names it: its address and its length. -/
abbrev Mapping := UInt64 × UInt64

structure Resources where
  descriptors : Ledger Descriptor
  mappings : Ledger Mapping

/-- The fields of an object with their initializers; the null pointer is the address 0. -/
structure IndexObject where
  fd : Descriptor := -1
  data : UInt64 := 0
  mappedSize : UInt64 := 0
  deriving DecidableEq, Repr

/-- What the operating system answers during one construction from a path. -/
structure OpenAnswers where
  /-- The result of `open`, negative when it fails. -/
  fd : Int
  /-- `st_size`, none when `fstat` fails. -/
  status : Option Int
  /-- The result of `mmap`, none for `MAP_FAILED`. -/
  mapping : Option UInt64
  /-- The mapped bytes. -/
  image : Image

/-- What is documented of the answers: a new descriptor is not in use, a new mapping neither,
nor is it at the null address, and it has the bytes of the file. -/
structure OpenAnswers.Valid (answers : OpenAnswers) (resources : Resources) : Prop where
  descriptor_fresh : 0 ≤ answers.fd → answers.fd ∉ resources.descriptors.live
  address_ne : ∀ address ∈ answers.mapping, address ≠ 0
  mapping_fresh : ∀ address ∈ answers.mapping, ∀ mapping ∈ resources.mappings.live,
    mapping.1 ≠ address
  image_size : ∀ size ∈ answers.status, 0 < size → answers.image.bytes.length = size.toNat

namespace IndexObject

def isOpen (object : IndexObject) : Bool := object.data ≠ 0

/-- The descriptor an object owns. -/
def descriptor (object : IndexObject) : Option Descriptor :=
  if object.fd ≥ 0 then some object.fd else none

/-- The mapping an object owns. -/
def mapping (object : IndexObject) : Option Mapping :=
  if object.data ≠ 0 then some (object.data, object.mappedSize) else none

def close (resources : Resources) (object : IndexObject) : Resources × IndexObject :=
  let resources :=
    if object.data ≠ 0 then
      { resources with mappings := resources.mappings.release (object.data, object.mappedSize) }
    else resources
  let resources :=
    if object.fd ≥ 0 then
      { resources with descriptors := resources.descriptors.release object.fd }
    else resources
  (resources, ⟨-1, 0, 0⟩)

/-- The constructor from a path: the resources and the fields it leaves, and how it ends. -/
def construct (resources : Resources) (path : String) (answers : OpenAnswers) :
    Resources × IndexObject × Except Exception Unit :=
  let object : IndexObject := { fd := answers.fd }
  if answers.fd < 0 then
    (resources, object, .error (.runtimeError ("unable to open index: " ++ path)))
  else
    let resources :=
      { resources with descriptors := resources.descriptors.acquire answers.fd }
    match answers.status with
    | none =>
        let (resources, object) := object.close resources
        (resources, object, .error (.runtimeError ("unable to stat index: " ++ path)))
    | some size =>
        if size ≤ 0 then
          let (resources, object) := object.close resources
          (resources, object, .error (.runtimeError ("unable to stat index: " ++ path)))
        else
          let object := { object with mappedSize := UInt64.ofNat size.toNat }
          match answers.mapping with
          | none =>
              let (resources, object) := close resources { object with data := 0 }
              (resources, object, .error (.runtimeError ("unable to memory-map index: " ++ path)))
          | some address =>
              let resources :=
                { resources with
                  mappings := resources.mappings.acquire (address, object.mappedSize) }
              let object := { object with data := address }
              match (validate answers.image).result with
              | .error error =>
                  let (resources, object) := object.close resources
                  (resources, object, .error error)
              | .ok _ => (resources, object, .ok ())

/-- The move assignment from another object: both objects afterwards. -/
def moveAssign (resources : Resources) (object other : IndexObject) :
    Resources × IndexObject × IndexObject :=
  let (resources, _) := object.close resources
  (resources, other, ⟨-1, 0, 0⟩)

/-- The object as the accessors see it, when the mapped memory holds `memory`. -/
def index (object : IndexObject) (memory : UInt64 → Image) : MmapIndex :=
  ⟨if object.data = 0 then none else some (memory object.data)⟩

end IndexObject

/-- The resources and the objects that are alive, by their numbers. -/
structure Indexes where
  resources : Resources
  objects : Nat → Option IndexObject

def Indexes.start : Indexes := ⟨⟨.empty, .empty⟩, fun _ => none⟩

inductive IndexOperation where
  | construct (id : Nat)
  | openPath (id : Nat) (path : String) (answers : OpenAnswers)
  | moveConstruct (id other : Nat)
  | moveAssign (id other : Nat)
  | destroy (id : Nat)

/-- One operation. An object that is constructed is new, every other one is alive. -/
inductive Indexes.Step : Indexes → IndexOperation → Indexes → Prop
  | construct {state : Indexes} {id : Nat} (hnew : state.objects id = none) :
      Step state (.construct id) ⟨state.resources, update state.objects id (some {})⟩
  | opened {state : Indexes} {id : Nat} {path : String} {answers : OpenAnswers}
      {resources : Resources} {object : IndexObject} (hnew : state.objects id = none)
      (hvalid : answers.Valid state.resources)
      (hresult : IndexObject.construct state.resources path answers = (resources, object, .ok ())) :
      Step state (.openPath id path answers) ⟨resources, update state.objects id (some object)⟩
  | failed {state : Indexes} {id : Nat} {path : String} {answers : OpenAnswers}
      {resources : Resources} {object : IndexObject} {error : Exception}
      (hnew : state.objects id = none) (hvalid : answers.Valid state.resources)
      (hresult : IndexObject.construct state.resources path answers =
        (resources, object, .error error)) :
      Step state (.openPath id path answers) ⟨resources, state.objects⟩
  | moveConstruct {state : Indexes} {id other : Nat} {source object emptied : IndexObject}
      {resources : Resources} (hnew : state.objects id = none)
      (hsource : state.objects other = some source)
      (hresult : IndexObject.moveAssign state.resources {} source = (resources, object, emptied)) :
      Step state (.moveConstruct id other)
        ⟨resources, update (update state.objects id (some object)) other (some emptied)⟩
  | moveAssign {state : Indexes} {id other : Nat} {target source object emptied : IndexObject}
      {resources : Resources} (hne : id ≠ other) (htarget : state.objects id = some target)
      (hsource : state.objects other = some source)
      (hresult : IndexObject.moveAssign state.resources target source =
        (resources, object, emptied)) :
      Step state (.moveAssign id other)
        ⟨resources, update (update state.objects id (some object)) other (some emptied)⟩
  | selfAssign {state : Indexes} {id : Nat} {object : IndexObject}
      (halive : state.objects id = some object) : Step state (.moveAssign id id) state
  | destroy {state : Indexes} {id : Nat} {object : IndexObject}
      (halive : state.objects id = some object) :
      Step state (.destroy id)
        ⟨(object.close state.resources).1, update state.objects id none⟩

end CppRag
