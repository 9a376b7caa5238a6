import Bacula.Filed.SendAttributes

/-! After a packet was sent its names are what they were before the path was stripped. -/
namespace Bacula.SendAttributes
open Scan

theorem mem_of_mem_stripComponents {count : ℕ} {p : List UInt8} {b : UInt8}
    (inside : b ∈ (stripComponents count p).1) : b ∈ p := by
  induction count, p using stripComponents.induct with
  | case1 p => exact inside
  | case2 count => exact inside
  | case3 count c p eq =>
      rw [stripComponents, eq] at inside
      exact absurd inside List.not_mem_nil
  | case4 count c p separator rest eq left stripped numsep result ih =>
      rw [stripComponents, eq] at inside
      exact (List.dropWhile_suffix _).subset (eq ▸ List.mem_cons_of_mem _ (ih inside))

/-- What is left of a name are characters of it. -/
theorem mem_of_mem_doStrip {count : ℕ} {name : List UInt8} {b : UInt8}
    (inside : b ∈ (doStrip count name).1) :
    b ∈ name := by
  unfold doStrip at inside
  dsimp only at inside
  split at inside
  · exact (List.takeWhile_prefix _).subset inside
  case h_2 separator p eq =>
    rcases List.mem_append.mp inside with front | back
    · exact (List.takeWhile_prefix _).subset front
    · have whole : b ∈ separator :: p := by
        rcases List.mem_cons.mp back with rfl | back
        · exact List.mem_cons_self
        · exact List.mem_cons_of_mem _ (mem_of_mem_stripComponents back)
      exact (List.dropWhile_suffix _).subset (eq ▸ whole)

/-- What stripping leaves for `unstrip_path`. -/
structure Saved (pkt stripped : FFPkt) : Prop where
  type : stripped.type = pkt.type
  deltaSeq : stripped.deltaSeq = pkt.deltaSeq
  strips : stripped.strips = pkt.strips
  stripsLink : stripped.stripsLink = pkt.stripsLink
  fnameSave : stripped.fnameSave = pkt.fname
  linkSave : pkt.stripsLink = true → stripped.linkSave = pkt.linkName
  sameLink : pkt.stripsLink = false → stripped.link = pkt.link
  chars : ∀ b, b ∈ stripped.fname ∨ b ∈ stripped.linkName → b ∈ pkt.fname ∨ b ∈ pkt.linkName

theorem some_linkName {pkt : FFPkt} (strips : pkt.stripsLink = true) :
    some pkt.linkName = pkt.link := by
  rw [FFPkt.stripsLink, Bool.and_eq_true] at strips
  obtain ⟨link, eq⟩ := Option.isSome_iff_exists.mp strips.2
  rw [FFPkt.linkName, eq]
  rfl

theorem Saved.unstrip {pkt stripped : FFPkt} (saved : Saved pkt stripped) (strips : pkt.strips = true) :
    (unstripPath stripped).fname = pkt.fname ∧ (unstripPath stripped).link = pkt.link := by
  have link : ({ stripped with fname := stripped.fnameSave } : FFPkt).stripsLink = pkt.stripsLink :=
    saved.stripsLink
  rw [unstripPath, if_neg (by rw [saved.strips, strips]; exact not_not.mpr rfl)]
  dsimp only
  rw [link]
  cases linked : pkt.stripsLink with
  | true =>
      refine ⟨saved.fnameSave, ?_⟩
      change some stripped.linkSave = pkt.link
      rw [saved.linkSave linked, some_linkName linked]
  | false => exact ⟨saved.fnameSave, saved.sameLink linked⟩

theorem Saved.unstripped {pkt stripped : FFPkt} (saved : Saved pkt stripped) :
    Saved pkt (unstripPath stripped) := by
  rw [unstripPath]
  split
  · exact saved
  · dsimp only
    split
    case isTrue link =>
      have linked : pkt.stripsLink = true := saved.stripsLink.symm.trans link
      refine ⟨saved.type, saved.deltaSeq, saved.strips, ?_, saved.fnameSave, saved.linkSave,
        fun absurd => ?_, fun b inside => ?_⟩
      · rw [linked, FFPkt.stripsLink, Bool.and_eq_true]
        rw [FFPkt.stripsLink, Bool.and_eq_true] at link
        exact ⟨link.1, rfl⟩
      · rw [linked] at absurd
        cases absurd
      · rw [← saved.fnameSave, ← saved.linkSave linked]
        exact inside
    case isFalse link =>
      have linked : pkt.stripsLink = false := by
        rw [← saved.stripsLink]
        exact Bool.not_eq_true _ ▸ link
      refine ⟨saved.type, saved.deltaSeq, saved.strips, saved.stripsLink, saved.fnameSave,
        saved.linkSave, saved.sameLink, fun b inside => ?_⟩
      rw [FFPkt.linkName, ← saved.fnameSave, ← saved.sameLink linked]
      exact inside

theorem stripPath_saved {pkt : FFPkt} (strips : pkt.strips = true) : Saved pkt (stripPath pkt) := by
  rw [stripPath, if_neg (by rw [strips]; exact not_not.mpr rfl)]
  have fnameChars (b : UInt8) (inside : b ∈ (doStrip pkt.stripPath.toNat pkt.fname).1) :
      b ∈ pkt.fname ∨ b ∈ pkt.linkName := .inl (mem_of_mem_doStrip inside)
  have linkChars (b : UInt8) (inside : b ∈ (doStrip pkt.stripPath.toNat pkt.linkName).1) :
      b ∈ pkt.fname ∨ b ∈ pkt.linkName := .inr (mem_of_mem_doStrip inside)
  cases linked : pkt.stripsLink with
  | true =>
      have first : ({ pkt with fnameSave := pkt.fname } : FFPkt).stripsLink = true := linked
      dsimp only
      rw [if_pos first]
      obtain ⟨types, pointers⟩ := Bool.and_eq_true_iff.mp linked
      have same (fname fnameSave linkSave : List UInt8) :
          ({ pkt with fname, fnameSave, linkSave } : FFPkt).linkName = pkt.linkName := by
        obtain ⟨link, pointer⟩ := Option.isSome_iff_exists.mp pointers
        rw [FFPkt.linkName, FFPkt.linkName, pointer]
        rfl
      have stripped {fname link : List UInt8} (names : ∀ b ∈ fname, b ∈ pkt.fname ∨ b ∈ pkt.linkName)
          (links : ∀ b ∈ link, b ∈ pkt.fname ∨ b ∈ pkt.linkName) :
          Saved pkt { pkt with
            fnameSave := pkt.fname, linkSave := pkt.linkName, fname, link := some link } := by
        refine ⟨rfl, rfl, rfl, ?_, rfl, fun _ => rfl, fun absurd => ?_,
          fun b inside => inside.elim (names b) (links b)⟩
        · rw [linked]
          exact Bool.and_eq_true_iff.mpr ⟨types, rfl⟩
        · rw [linked] at absurd
          cases absurd
      have nameOnly : Saved pkt { pkt with
          fnameSave := pkt.fname, linkSave := pkt.linkName,
          fname := (doStrip pkt.stripPath.toNat pkt.fname).1 } := by
        have := stripped fnameChars (fun b inside => Or.inr inside : ∀ b ∈ pkt.linkName, _)
        rwa [some_linkName linked] at this
      simp only [same]
      split
      · exact nameOnly.unstripped
      · split
        · split
          · exact stripped fnameChars linkChars
          · exact (stripped fnameChars linkChars).unstripped
        · exact nameOnly
  | false =>
      have first : ¬ ({ pkt with fnameSave := pkt.fname } : FFPkt).stripsLink = true := by
        rw [Bool.not_eq_true]
        exact linked
      dsimp only
      rw [if_neg first]
      have stripped : Saved pkt { pkt with
          fnameSave := pkt.fname, fname := (doStrip pkt.stripPath.toNat pkt.fname).1 } := by
        refine ⟨rfl, rfl, rfl, rfl, rfl, fun absurd => ?_, fun _ => rfl, fun b inside => ?_⟩
        · rw [linked] at absurd
          cases absurd
        · rcases inside with name | link
          · exact fnameChars b name
          · cases pointer : pkt.link with
            | none =>
                rw [FFPkt.linkName, pointer] at link
                exact fnameChars b link
            | some other =>
                rw [FFPkt.linkName, pointer] at link
                rw [FFPkt.linkName, pointer]
                exact .inr link
      dsimp only
      split
      · exact stripped.unstripped
      · split
        case isTrue link =>
          have link : pkt.stripsLink = true := link
          rw [linked] at link
          cases link
        case isFalse => exact stripped

theorem stripPath_off {pkt : FFPkt} (strips : pkt.strips = false) : stripPath pkt = pkt := by
  rw [stripPath, strips]
  exact if_pos Bool.false_ne_true

theorem stripPath_type (pkt : FFPkt) : (stripPath pkt).type = pkt.type := by
  cases strips : pkt.strips with
  | true => exact (stripPath_saved strips).type
  | false => rw [stripPath_off strips]

theorem unstripPath_stripPath (pkt : FFPkt) :
    (unstripPath (stripPath pkt)).fname = pkt.fname ∧
    (unstripPath (stripPath pkt)).link = pkt.link := by
  cases strips : pkt.strips with
  | true => exact (stripPath_saved strips).unstrip strips
  | false =>
      rw [stripPath_off strips, unstripPath, strips, if_pos Bool.false_ne_true]
      exact ⟨rfl, rfl⟩

/-- Only an object is changed when it is sent. -/
theorem sendRecord_names (zdeflate : List UInt8 → List UInt8) (fileIndex : ℕ)
    (attribs attribsEx : List UInt8) (pkt : FFPkt) :
    (sendRecord zdeflate fileIndex attribs attribsEx pkt).2.fname = pkt.fname ∧
      (sendRecord zdeflate fileIndex attribs attribsEx pkt).2.link = pkt.link := by
  have object : (sendObject zdeflate fileIndex pkt).2.fname = pkt.fname ∧
      (sendObject zdeflate fileIndex pkt).2.link = pkt.link := by
    unfold sendObject
    dsimp only
    split <;> exact ⟨rfl, rfl⟩
  unfold sendRecord
  dsimp only
  split <;> first | exact object | exact ⟨rfl, rfl⟩

theorem sendRecord_file {pkt : FFPkt} (file : pkt.type.isObject = false)
    (zdeflate : List UInt8 → List UInt8) (fileIndex : ℕ) (attribs attribsEx : List UInt8) :
    (sendRecord zdeflate fileIndex attribs attribsEx pkt).2 = pkt := by
  unfold sendRecord
  dsimp only
  split <;> first | rfl | (rename_i eq; rw [eq] at file; cases file)

/-- The name in the record of a packet: directories are named by their link, with the trailing slash. -/
def FFPkt.sentName (pkt : FFPkt) : List UInt8 :=
  match pkt.type with
  | .DIREND | .REPARSE | .JUNCTION => pkt.linkName
  | _ => pkt.fname

/-- Only links are sent with what they lead to. -/
def FFPkt.sentLink (pkt : FFPkt) : List UInt8 :=
  match pkt.type with
  | .LNK | .LNKSAVED => pkt.linkName
  | _ => []

theorem sendRecord_eq {pkt : FFPkt} (file : pkt.type.isObject = false)
    (zdeflate : List UInt8 → List UInt8) (fileIndex : ℕ) (attribs attribsEx : List UInt8) :
    (sendRecord zdeflate fileIndex attribs attribsEx pkt).1 =
      attributesRecord fileIndex pkt.type pkt.sentName attribs pkt.sentLink attribsEx
        (if pkt.type = .REG then signed pkt.deltaSeq else decimal pkt.deltaSeq.toUInt32.toNat) := by
  unfold sendRecord FFPkt.sentName FFPkt.sentLink
  cases type : pkt.type <;> first | rfl | (rw [type] at file; cases file)

/-- The packet whose names are sent. -/
def FFPkt.sent (pkt : FFPkt) : FFPkt := if pkt.isStripped then SendAttributes.stripPath pkt else pkt

theorem sent_type (pkt : FFPkt) : pkt.sent.type = pkt.type := by
  rw [FFPkt.sent]
  split
  · exact stripPath_type pkt
  · rfl

theorem sent_deltaSeq (pkt : FFPkt) : pkt.sent.deltaSeq = pkt.deltaSeq := by
  rw [FFPkt.sent]
  split
  · cases strips : pkt.strips with
    | true => exact (stripPath_saved strips).deltaSeq
    | false => rw [stripPath_off strips]
  · rfl

theorem sent_terminated {pkt : FFPkt} (name : 0 ∉ pkt.fname) (link : 0 ∉ pkt.linkName) :
    0 ∉ pkt.sent.sentName ∧ 0 ∉ pkt.sent.sentLink := by
  have both : 0 ∉ pkt.sent.fname ∧ 0 ∉ pkt.sent.linkName := by
    rw [FFPkt.sent]
    split
    · cases strips : pkt.strips with
      | true =>
          have chars := (stripPath_saved strips).chars 0
          exact ⟨fun inside => (chars (.inl inside)).elim name link,
            fun inside => (chars (.inr inside)).elim name link⟩
      | false =>
          rw [stripPath_off strips]
          exact ⟨name, link⟩
    · exact ⟨name, link⟩
  constructor
  · unfold FFPkt.sentName
    split <;> first | exact both.2 | exact both.1
  · unfold FFPkt.sentLink
    split <;> first | exact both.2 | exact List.not_mem_nil

theorem encodeAndSendAttributes_names (zdeflate : List UInt8 → List UInt8) (jobFiles : ℕ)
    (exStream : Int32) (attribs attribsEx : List UInt8) (pkt : FFPkt) :
    (encodeAndSendAttributes zdeflate jobFiles exStream attribs attribsEx pkt).pkt.fname = pkt.fname ∧
      (encodeAndSendAttributes zdeflate jobFiles exStream attribs attribsEx pkt).pkt.link =
    pkt.link := by
  unfold encodeAndSendAttributes
  dsimp only
  cases stripped : pkt.isStripped with
  | true =>
      have file : (stripPath pkt).type.isObject = false := by
        rw [stripPath_type]
        rw [FFPkt.isStripped, decide_eq_true_eq] at stripped
        exact Bool.not_eq_true _ ▸ stripped.1
      rw [if_pos rfl, if_pos rfl, sendRecord_file file]
      exact unstripPath_stripPath pkt
  | false => exact sendRecord_names _ _ _ _ _

end Bacula.SendAttributes
