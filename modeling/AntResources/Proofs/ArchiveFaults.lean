import AntResources.Archive.Content
import AntResources.Proofs.Sequencing

/-!
# AntResources.Proofs.ArchiveFaults

**What archives can be at fault with.** An archive that contradicts itself is broken, and the library has
an error of its own for that. Besides there are a few faults, which come out as they are: two that the
table of an archive can have (`Archive.faultsIn_ofBytes`), and six that the content of a member can have
(`Archive.faultsIn_contentOf`).
-/

namespace AntResources

/-- The faults among the defects with which a step may end. -/
def FaultsIn {α : Type} (faults : List Fault) (x : Except Defect α) : Prop :=
  ∀ fault, x = .error (.fault fault) → fault ∈ faults

namespace FaultsIn

variable {α β : Type} {faults : List Fault}

theorem ok (a : α) : FaultsIn faults (.ok a) := by
  intro fault h
  cases h

theorem error {defect : Defect} (h : ∀ fault, defect = .fault fault → fault ∈ faults) :
    FaultsIn faults (.error defect : Except Defect α) :=
  fun fault hfault => h fault (Except.error.inj hfault)

theorem broken : FaultsIn faults (.error .broken : Except Defect α) :=
  error fun _ h => by cases h

theorem fault {cause : Fault} (h : cause ∈ faults) :
    FaultsIn faults (.error (.fault cause) : Except Defect α) :=
  error fun _ hfault => by cases hfault; exact h

theorem bind {x : Except Defect α} {f : α → Except Defect β} (hx : FaultsIn faults x)
    (hf : ∀ a, FaultsIn faults (f a)) : FaultsIn faults (x >>= f) := by
  cases x with
  | error defect => exact fun fault h => hx fault (by rw [← Except.error.inj h])
  | ok a => exact hf a

/-- A check comes before the rest of the steps. -/
theorem check {c : Prop} [Decidable c] {defect : Defect} {f : PUnit → Except Defect α}
    {rest : Except Defect α} (h : FaultsIn faults (.error defect : Except Defect α))
    (hrest : FaultsIn faults rest) : FaultsIn faults (if c then throw defect >>= f else rest) := by
  split
  · exact h
  · exact hrest

end FaultsIn

namespace Archive

/-! ### Tables -/

/-- What the table of an archive can be at fault with: a name is not text, or a feature is lacking. -/
def tableFaults : List Fault := [.notText, .unsupportedArchive]

variable {faults : List Fault}

theorem faultsIn_decodeName (h : Fault.notText ∈ faults) (flags : Nat) (bytes : ByteArray) :
    FaultsIn faults (decodeName flags bytes) := by
  unfold decodeName
  split
  · cases String.fromUTF8? bytes with
    | some s => exact .ok s
    | none => exact .fault h
  · exact .ok _

theorem faultsIn_fullNumber (marked : Bool) (given : Nat) (field : ByteArray) :
    FaultsIn faults (fullNumber marked given field) := by
  unfold fullNumber
  split
  · exact .ok _
  · split
    · exact .broken
    · exact .ok _

theorem faultsIn_completeExtent (e : Extent) (field : ByteArray) :
    FaultsIn faults (completeExtent e field) := by
  unfold completeExtent
  refine .bind (faultsIn_fullNumber _ _ _) fun size => ?_
  refine .bind (faultsIn_fullNumber _ _ _) fun packedSize => ?_
  refine .bind (faultsIn_fullNumber _ _ _) fun offset => ?_
  exact .ok _

theorem faultsIn_readExtra (extra : ByteArray) (place : Nat) (e : Extent) :
    FaultsIn faults (readExtra extra place e) := by
  fun_induction readExtra extra place e with
  | case1 => exact .ok _
  | case2 => exact .broken
  | case3 place e _ next _ _ defect hextent =>
      intro fault h
      exact faultsIn_completeExtent _ _ fault (hextent.trans h)
  | case4 place e _ next _ _ whole _ ih => exact ih
  | case5 place e _ next _ _ ih => exact ih

theorem faultsIn_readMember (table : ByteArray) (place : Nat) (shift : Int) :
    FaultsIn tableFaults (readMember table place shift) := by
  unfold readMember
  refine .check .broken (.check .broken ?_)
  refine .bind (faultsIn_decodeName (by decide) _ _) fun fullName => ?_
  refine .check (.fault (by decide)) ?_
  refine .bind (faultsIn_readExtra _ _ _) fun extent => ?_
  exact .ok _

theorem faultsIn_readMembers (table : ByteArray) (shift : Int) (count place : Nat) :
    FaultsIn tableFaults (readMembers table shift count place) := by
  induction count generalizing place with
  | zero => exact .ok _
  | succ count ih =>
      unfold readMembers
      split
      · exact .ok _
      · refine .bind (faultsIn_readMember _ _ _) fun (member, next) => ?_
        exact .bind (ih next) fun members => .ok _

/-- **What opening an archive can be at fault with.** -/
theorem faultsIn_ofBytes (bytes : ByteArray) : FaultsIn tableFaults (ofBytes bytes) := by
  unfold ofBytes
  cases findEnd bytes with
  | found record =>
      dsimp only
      split
      · exact .broken
      · exact .bind (faultsIn_readMembers _ _ _ _) fun members => .ok _
  | _ => exact .broken

/-! ### Members -/

/-- What the content of a member can be at fault with. -/
def contentFaults : List Fault :=
  [.notText, .unsupportedArchive, .offsetOutOfRange, .encryptedMember, .truncatedMember, .corruptMember]

theorem faultsIn_packed (a : Archive) (m : Member) : FaultsIn contentFaults (a.packed m) := by
  unfold packed
  refine .check .broken (.check (.fault (by decide)) ?_)
  refine .check .broken (.check .broken (.check (.fault (by decide)) ?_))
  refine .bind (faultsIn_decodeName (by decide) _ _) fun name => ?_
  refine .check .broken (.check .broken ?_)
  exact .check (.fault (by decide)) (.ok _)

/-- Bytes that make no sense are no more than a fault of the content. -/
theorem faultsIn_corruption {d : Decompressors} {number : Nat} {method : Method}
    (h : d.method? number = some method) :
    FaultsIn contentFaults (.error method.corruption : Except Defect ByteArray) := by
  unfold Decompressors.method? at h
  split at h
  · obtain rfl := Option.some.inj h
    exact .broken
  · obtain rfl := Option.some.inj h
    exact .fault (by decide)
  · obtain ⟨restore, -, rfl⟩ := Option.map_eq_some_iff.mp h
    exact .broken
  · obtain ⟨restore, -, rfl⟩ := Option.map_eq_some_iff.mp h
    exact .fault (by decide)
  · cases h

theorem faultsIn_unpack (d : Decompressors) (m : Member) (stored : ByteArray) :
    FaultsIn contentFaults (unpack d m stored) := by
  unfold unpack
  cases hmethod : d.method? m.method with
  | none => exact .fault (by decide)
  | some method =>
      refine .check (.fault (by decide)) ?_
      cases method.restore stored with
      | corrupt => exact faultsIn_corruption hmethod
      | finished output => exact .ok _
      | cut output => exact .check (.fault (by decide)) (.ok _)

/-- **What the content of a member can be at fault with.** -/
theorem faultsIn_contentOf (a : Archive) (d : Decompressors) (m : Member) :
    FaultsIn contentFaults (a.contentOf d m) := by
  unfold contentOf
  refine .bind (faultsIn_packed a m) fun stored => ?_
  refine .bind (faultsIn_unpack d m stored) fun content => ?_
  exact .check .broken (.ok _)

end Archive

end AntResources
