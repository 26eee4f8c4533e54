import Telemetry.Proofs.Reader.Pass
import Telemetry.Proofs.Source.Disturbed
import Telemetry.Proofs.Source.Settled

/-!
# What a waiting reader receives

`Awaits` is one wait for the next frame, receive by receive: the receives go on after
data and after an interruption, and end at a frame, at an empty receive or at an error.
Everything that was received is in the buffer or in the frame that was taken.
-/

namespace Telemetry.Reader

inductive Awaits : Reader → List Receipt → Except Fault String → Reader → Prop where
  | taken {r : Reader} {payload rest : Bytes} (hs : Frame.split? r.decoder.buffer = some (payload, rest)) :
      Awaits r [] (Decoder.textOf payload) { r with decoder := ⟨rest⟩ }
  | closed {r : Reader} {source : Source} (hb : ¬ Frame.Begins r.decoder.buffer)
      (hr : r.source.receive r.chunk.size = (.received [], source)) :
      Awaits r [.received []] (.error (.closed (r.store [] source).buffered)) (r.store [] source)
  | failed {r : Reader} {receipt : Receipt} {error : IoError} {source : Source}
      (hb : ¬ Frame.Begins r.decoder.buffer) (hr : r.source.receive r.chunk.size = (receipt, source))
      (he : receipt.error? = some error) : Awaits r [receipt] (.error (.io error)) { r with source }
  | data {r r' : Reader} {bytes : Bytes} {source : Source} {receipts : List Receipt} {result : Except Fault String}
      (hb : ¬ Frame.Begins r.decoder.buffer) (hr : r.source.receive r.chunk.size = (.received bytes, source))
      (hn : bytes ≠ []) (others : Awaits (r.store bytes source) receipts result r') :
      Awaits r (.received bytes :: receipts) result r'
  | interrupted {r r' : Reader} {error : IoError} {source : Source} {receipts : List Receipt}
      {result : Except Fault String} (hb : ¬ Frame.Begins r.decoder.buffer)
      (hr : r.source.receive r.chunk.size = (.failed error, source)) (hk : error.kind = .interrupted)
      (others : Awaits { r with source } receipts result r') : Awaits r (.failed error :: receipts) result r'

section
variable {r : Reader}

theorem awaitText_pass (hb : ¬ Frame.Begins r.decoder.buffer) :
    r.awaitText = match r.source.receive r.chunk.size with
      | (.received [], source) => (.error (.closed (r.store [] source).buffered), r.store [] source)
      | (.received (b :: bytes), source) => (r.store (b :: bytes) source).awaitText
      | (.failed error, source) =>
        if error.kind = .interrupted then ({ r with source } : Reader).awaitText
        else (.error (.io error), { r with source })
      | (.pending, source) => (.error (.io ⟨.wouldBlock, none⟩), { r with source }) := by
  rw [awaitText_of_none hb, fill_eq, Source.receiveNow]
  rcases r.source.receive r.chunk.size with ⟨(_ | ⟨b, bytes⟩) | error | _, source⟩
  · rfl
  · rfl
  · by_cases hk : error.kind = .interrupted
    · have hw : ({ r with source } : Reader).awaitText = _ := awaitText_of_none hb
      simp only [if_pos hk, hw]
    · simp only [if_neg hk]
  · rfl

theorem awaits_awaitText (r : Reader) : ∃ receipts, Awaits r receipts r.awaitText.1 r.awaitText.2 := by
  -- a receive that others follow leaves less to come
  induction hw : r.source.weight using Nat.strongRecOn generalizing r with | _ w ih
  cases hs : Frame.split? r.decoder.buffer with
  | some pair =>
    rw [awaitText_of_split? hs]
    exact ⟨[], .taken hs⟩
  | none =>
    have hb := Frame.split?_eq_none_iff.1 hs
    rw [awaitText_pass hb]
    rcases hr : r.source.receive r.chunk.size with ⟨(_ | ⟨b, bytes⟩) | error | _, source⟩
    · exact ⟨_, .closed hb hr⟩
    · have hlt := Source.weight_received hr
      rw [List.length_cons] at hlt
      obtain ⟨receipts, h⟩ := ih source.weight (by omega) (r.store (b :: bytes) source) rfl
      exact ⟨_, .data hb hr (List.cons_ne_nil b bytes) h⟩
    · by_cases hk : error.kind = .interrupted
      · have hlt := Source.weight_failed hr
        obtain ⟨receipts, h⟩ := ih source.weight (by omega) { r with source } rfl
        simp only [if_pos hk]
        exact ⟨_, .interrupted hb hr hk h⟩
      · simp only [if_neg hk]
        exact ⟨_, .failed hb hr (if_neg hk)⟩
    · exact ⟨_, .failed hb hr rfl⟩

/-! ## One receive -/

section
variable {bytes : Bytes} {receipt : Receipt} {source : Source}

theorem buffer_store (hr : r.source.receive r.chunk.size = (.received bytes, source)) :
    (r.store bytes source).decoder.buffer = r.decoder.buffer ++ bytes := by
  rw [decoder_store r (Source.length_received hr)]
  rfl

theorem backlog_store (hr : r.source.receive r.chunk.size = (.received bytes, source)) :
    (r.store bytes source).backlog = r.backlog := by
  rw [backlog, buffer_store hr, backlog, Source.left_receive hr, List.append_assoc]
  rfl

theorem backlog_failed (hr : r.source.receive r.chunk.size = (receipt, source)) (hd : receipt.data = []) :
    ({ r with source } : Reader).backlog = r.backlog := by
  rw [backlog, backlog, Source.left_receive hr, hd]
  rfl

end

end

/-! ## What a wait has come to -/

section
variable {α : Type}

def isFrame : Except Fault α → Bool
  | .ok _ => true
  | .error (.decoding _ _) => true
  | _ => false

def failure? : Except Fault α → Option IoError
  | .error (.io error) => some error
  | _ => none

def closing? : Except Fault α → Option Nat
  | .error (.closed pending) => some pending
  | _ => none

end

section
variable {r r' : Reader} {receipts : List Receipt} {result : Except Fault String}

theorem textOf_isFrame (payload : Bytes) : isFrame (Decoder.textOf payload) = true ∧
    failure? (Decoder.textOf payload) = none ∧ closing? (Decoder.textOf payload) = none := by
  rcases Decoder.textOf_cases payload with ⟨_, _, h, _⟩ | ⟨_, _, h⟩ <;> rw [h] <;> exact ⟨rfl, rfl, rfl⟩

theorem Awaits.receives (h : Awaits r receipts result r') :
    r.source.Receives r.chunk.size receipts r'.source ∧ r'.chunk.size = r.chunk.size := by
  induction h with
  | taken _ => exact ⟨.nil, rfl⟩
  | closed _ hr => exact ⟨.cons hr .nil, rfl⟩
  | failed _ hr _ => exact ⟨.cons hr .nil, rfl⟩
  | data _ hr _ _ ih => exact ⟨.cons hr ih.1, ih.2⟩
  | interrupted _ hr _ _ ih => exact ⟨.cons hr ih.1, ih.2⟩

theorem Awaits.buffer (h : Awaits r receipts result r') (hf : isFrame result = false) :
    r'.decoder.buffer = r.decoder.buffer ++ receipts.flatMap Receipt.data ∧ ¬ Frame.Begins r'.decoder.buffer := by
  induction h with
  | @taken r payload rest _ =>
    rw [(textOf_isFrame payload).1] at hf
    cases hf
  | closed hb hr =>
    rw [buffer_store hr]
    exact ⟨rfl, by rwa [List.append_nil]⟩
  | failed hb _ he =>
    rw [List.flatMap_singleton, Receipt.data_of_error? he, List.append_nil]
    exact ⟨rfl, hb⟩
  | data _ hr _ _ ih =>
    obtain ⟨he, hb⟩ := ih hf
    refine ⟨?_, hb⟩
    rw [he, buffer_store hr, List.append_assoc]
    rfl
  | interrupted _ _ _ _ ih => exact ih hf

theorem Awaits.closing (h : Awaits r receipts result r') {pending : Nat} (hc : closing? result = some pending) :
    pending = r'.buffered := by
  induction h with
  | @taken r payload rest _ =>
    rw [(textOf_isFrame payload).2.2] at hc
    cases hc
  | closed _ _ => cases hc; rfl
  | failed _ _ _ => cases hc
  | data _ _ _ _ ih => exact ih hc
  | interrupted _ _ _ _ ih => exact ih hc

theorem Awaits.backlog (h : Awaits r receipts result r') :
    (∃ payload, result = Decoder.textOf payload ∧ Frame.split? r.backlog = some (payload, r'.backlog)) ∨
      isFrame result = false ∧ r'.backlog = r.backlog := by
  induction h with
  | @taken r payload rest hs => exact .inl ⟨payload, rfl, Frame.split?_append hs r.source.left⟩
  | closed _ hr => exact .inr ⟨rfl, backlog_store hr⟩
  | failed _ hr he => exact .inr ⟨rfl, backlog_failed hr (Receipt.data_of_error? he)⟩
  | data _ hr _ _ ih => rwa [backlog_store hr] at ih
  | interrupted _ hr _ _ ih => rwa [backlog_failed hr rfl] at ih

theorem Awaits.errors (h : Awaits r receipts result r') :
    r.source.errors = (failure? result).toList ++ r'.source.errors := by
  induction h with
  | @taken r payload rest _ =>
    rw [(textOf_isFrame payload).2.1]
    rfl
  | closed _ hr => exact Source.errors_receive hr
  | failed _ hr he =>
    rw [Source.errors_receive hr, he]
    rfl
  | data _ hr _ _ ih =>
    rw [Source.errors_receive hr]
    exact ih
  | interrupted _ hr hk _ ih =>
    rw [Source.errors_receive hr, Receipt.error?, if_pos hk]
    exact ih

theorem Awaits.closings (h : Awaits r receipts result r') (room : 0 < r.chunk.size) :
    Source.closings r.decoder.buffer r.source.events = match closing? result with
      | some pending =>
        pending :: if r'.source.events = [] then [] else Source.closings r'.decoder.buffer r'.source.events
      | none => Source.closings r'.decoder.buffer r'.source.events := by
  induction h with
  | @taken r payload rest hs =>
    rw [(textOf_isFrame payload).2.2]
    refine Source.closings_congr ?_ r.source.events
    rw [Frame.splitAll_some hs]
  | @closed r source hb hr =>
    have he : (r.store [] source).decoder.buffer = r.decoder.buffer := by rw [buffer_store hr, List.append_nil]
    rw [(Source.closings_empty r.decoder.buffer hr room).1, he, Frame.splitAll_of_not_begins hb]
    show _ = (r.store [] source).decoder.buffer.length :: _
    rw [he]
    rfl
  | @failed r receipt error source _ hr he =>
    refine Source.closings_failed r.decoder.buffer hr fun bytes hbytes => ?_
    rw [hbytes] at he
    cases he
  | data _ hr hn _ ih =>
    rw [Source.closings_received _ hr hn, ← buffer_store hr]
    exact ih room
  | interrupted _ hr _ _ ih =>
    rw [Source.closings_failed _ hr fun _ => Receipt.noConfusion]
    exact ih room

theorem Awaits.progress (h : Awaits r receipts result r') (room : 0 < r.chunk.size) :
    (closing? result).isSome = true ∧ r'.source.events = [] ∨
      r'.decoder.buffered + r'.source.weight < r.decoder.buffered + r.source.weight := by
  induction h with
  | @taken r payload rest hs =>
    have hl := Frame.length_split? hs
    refine .inr (Nat.add_lt_add_right ?_ _)
    simp only [Decoder.buffered, Frame.headerSize] at *
    omega
  | @closed r source _ hr =>
    rcases (Source.closings_empty [] hr room).2 with he | hw
    · exact .inl ⟨rfl, he⟩
    · refine .inr ?_
      rw [Decoder.buffered, buffer_store hr, List.append_nil]
      exact Nat.add_lt_add_left hw _
  | @failed r receipt error source _ hr he =>
    refine .inr (Nat.add_lt_add_left ?_ _)
    cases receipt with
    | received bytes => cases he
    | failed e => exact Source.weight_failed hr
    | pending => exact Source.weight_pending hr
  | @data r r' bytes source receipts result _ hr _ _ ih =>
    have hw := Source.weight_received hr
    have hd := decoder_store r (Source.length_received hr) source
    refine (ih room).imp_right fun hlt => ?_
    rw [hd, Decoder.buffered_feed] at hlt
    have hs : (r.store bytes source).source.weight = source.weight := rfl
    omega
  | @interrupted r r' error source receipts result _ hr _ _ ih =>
    have hw := Source.weight_failed hr
    refine (ih room).imp_right fun hlt => ?_
    exact Nat.lt_trans hlt (Nat.add_lt_add_left hw _)

end

end Telemetry.Reader
