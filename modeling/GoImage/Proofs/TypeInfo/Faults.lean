import GoImage.Proofs.Image.Content
import GoImage.Proofs.Run
import GoImage.TypeInfo.Reader

/-! # Why a descriptor cannot be read

All that a descriptor leads to is read from the bytes of the image, so that reading fails for want
of bytes, or for bytes that do not form a value. The failure names the descriptor, and just once. -/

namespace GoImage

theorem Image.isReadFault_of_decodeAt {α : Type} {image : Image} {va : Nat} {e : Error}
    {decoder : Decoder α} (hdecoder : FailsOnly Error.IsReadFault decoder)
    (h : image.decodeAt va decoder = .error e) : e.IsReadFault := by
  unfold Image.decodeAt at h
  cases hdata : image.bytesFrom va with
  | error e' =>
      rw [hdata] at h
      cases h
      rw [Image.bytesFrom_error hdata]
      trivial
  | ok data =>
      rw [hdata] at h
      exact hdecoder.on h

namespace TypeReader

open Decoder

variable {r : TypeReader} {va : Nat} {e : Error}

theorem lengthText_failsOnly (isLegacy : Bool) (va : Nat) :
    FailsOnly Error.IsReadFault (Name.lengthText isLegacy va) := by
  have hlength : FailsOnly Error.IsReadFault (Name.length isLegacy) := by
    cases isLegacy with
    | true => exact .wordIn .big 2
    | false => exact .uvarint
  refine hlength.bind fun n => (FailsOnly.take n).bind fun bytes => ?_
  split
  · exact .pure _
  · exact .throw trivial

theorem isReadFault_of_name (h : r.name va = .error e) : e.IsReadFault := by
  refine Image.isReadFault_of_decodeAt ?_ h
  refine FailsOnly.get.bind fun c => (FailsOnly.word 1).bind fun flags =>
    (lengthText_failsOnly _ va).bind fun text => ?_
  split
  · exact .bind (.bind (lengthText_failsOnly _ va) fun _ => .pure _) fun _ => .pure _
  · exact .bind (.pure _) fun _ => .pure _

theorem method_failsOnly (r : TypeReader) : FailsOnly Error.IsReadFault r.method := by
  refine (FailsOnly.int .i32).bind fun nameOffset => (FailsOnly.int .i32).bind fun typeOffset => ?_
  split
  · exact .throw trivial
  · exact .bind (.ofExcept fun e he => isReadFault_of_name he) fun _ => .pure _

theorem field_failsOnly (r : TypeReader) : FailsOnly Error.IsReadFault r.field := by
  have hpointer := FailsOnly.pointer_isReadFault
  refine hpointer.bind fun nameVa => hpointer.bind fun _ => hpointer.bind fun _ => ?_
  split
  all_goals
    split
    · exact .bind (.pure _) fun _ => .pure _
    · exact .bind (.ofExcept fun e he => isReadFault_of_name he) fun _ => .pure _

theorem table_failsOnly {α : Type} {element : Decoder α}
    (helement : FailsOnly Error.IsReadFault element) (data length : Nat) :
    FailsOnly Error.IsReadFault (r.table element data length) := by
  unfold table
  split
  · exact .pure _
  · exact .ofExcept fun e he => Image.isReadFault_of_decodeAt (helement.times length) he

theorem tableHeader_failsOnly (r : TypeReader) (elementSize : Nat) :
    FailsOnly Error.IsReadFault (r.tableHeader elementSize) := by
  have hpointer := FailsOnly.pointer_isReadFault
  refine hpointer.bind fun _ => hpointer.bind fun _ => hpointer.bind fun _ => ?_
  split
  · exact .bind (.throw trivial) fun _ => .pure _
  · exact .pure _

theorem shape_failsOnly (r : TypeReader) (kind : Kind) (flags : Nat) :
    FailsOnly Error.IsReadFault (r.shape kind flags) := by
  have hpointer := FailsOnly.pointer_isReadFault
  cases kind with
  | array =>
      exact hpointer.bind fun _ => (FailsOnly.skipPointers 1).bind fun _ =>
        hpointer.bind fun _ => .pure _
  | chan =>
      refine hpointer.bind fun _ => hpointer.bind fun raw => ?_
      split
      · exact .pure _
      · exact .throw trivial
  | func =>
      exact (FailsOnly.word 2).bind fun _ => (FailsOnly.word 2).bind fun _ =>
        (FailsOnly.seek trivial _).bind fun _ => (hpointer.times _).bind fun _ =>
        (hpointer.times _).bind fun _ => .pure _
  | interface =>
      exact (FailsOnly.skipPointers 1).bind fun _ => (tableHeader_failsOnly r 8).bind fun _ =>
        (table_failsOnly (method_failsOnly r) _ _).bind fun _ => .pure _
  | map => exact hpointer.bind fun _ => hpointer.bind fun _ => .pure _
  | pointer | slice => exact hpointer.bind fun _ => .pure _
  | struct =>
      exact (FailsOnly.skipPointers 1).bind fun _ => (tableHeader_failsOnly r _).bind fun _ =>
        (table_failsOnly (field_failsOnly r) _ _).bind fun _ => .pure _
  | _ => exact .pure _

theorem isReadFault_of_nameText {offset : Int} (h : r.nameText offset = .error e) :
    e.IsReadFault := by
  unfold nameText at h
  split at h
  · cases h
  · split at h
    · cases h
      trivial
    · rename_i va _
      cases hname : r.name va with
      | ok name =>
          rw [hname] at h
          cases h
      | error e' =>
          rw [hname] at h
          cases h
          exact isReadFault_of_name hname

theorem descriptor_failsOnly (r : TypeReader) (va : Nat) :
    FailsOnly Error.IsReadFault (r.descriptor va) :=
  .bind FailsOnly.pointer_isReadFault fun _ => (FailsOnly.skipPointers 1).bind fun _ =>
    (FailsOnly.word 4).bind fun _ => (FailsOnly.word 1).bind fun _ =>
    (FailsOnly.skip 2).bind fun _ => (FailsOnly.word 1).bind fun _ =>
    (FailsOnly.skipPointers 2).bind fun _ => (FailsOnly.int .i32).bind fun _ =>
    (FailsOnly.skip 4).bind fun _ =>
    .bind (.ofExcept fun _ he => isReadFault_of_nameText he) fun _ =>
    (shape_failsOnly r _ _).bind fun _ => .pure _

/-- A failure names the address of the descriptor and a cause that is not about descriptors. -/
theorem exists_cause_of_read (h : r.read va = .error e) :
    ∃ cause : Error, e = .descriptor va cause ∧ cause.IsReadFault := by
  unfold read at h
  cases hdecode : r.image.decodeAt va (r.descriptor va) with
  | ok d =>
      rw [hdecode] at h
      cases h
  | error cause =>
      rw [hdecode] at h
      cases h
      exact ⟨cause, rfl, Image.isReadFault_of_decodeAt (descriptor_failsOnly r va) hdecode⟩

end TypeReader

end GoImage
