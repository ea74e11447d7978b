import OurSql.Storage.TornTail

/-! A record in the middle of the log file damaged at any of its bytes: the scan sees it, and
when opening the file takes it for a torn tail. -/
namespace OurSql
namespace Storage

open Bytes

/-- The bytes from a place in the file on begin with a record that `Decode` reads and the chains
accept, of the length it announces. -/
def accepted (st : ScanState) (bytes : List UInt8) : Bool :=
  match decode (bytes.take (loadAt 4 bytes 8)) with
  | .ok r => st.check r = .ok ()
  | .error _ => false

/-- `Decode` reads the record that begins here. -/
def decodes (bytes : List UInt8) : Bool :=
  match decode (bytes.take (loadAt 4 bytes 8)) with
  | .ok _ => true
  | .error _ => false

/-- The announced length is that of a record, and bytes are left behind it. -/
def inMiddle (bytes : List UInt8) : Bool :=
  headerSize ≤ loadAt 4 bytes 8 ∧ loadAt 4 bytes 8 < bytes.length

variable {st : ScanState} {bytes damaged : List UInt8} {before after : List LogRecord}
  {r : LogRecord}

theorem decode_length {data : List UInt8} (h : decode data = .ok r) :
    headerSize ≤ data.length ∧ loadAt 4 data 8 = data.length := by
  unfold decode at h
  split at h
  · simp [fail] at h
  next hshort =>
  split at h
  · simp [fail] at h
  split at h
  · simp [fail] at h
  dsimp only at h
  split at h
  · simp [fail] at h
  next hlen =>
  rw [not_or,not_or,not_not] at hlen
  exact ⟨Nat.not_lt.mp hshort,hlen.2.1⟩

/-- A record that decodes lies in the file with the length it announces. -/
theorem decodes_length (h : decodes bytes = true) :
    headerSize ≤ loadAt 4 bytes 8 ∧ loadAt 4 bytes 8 ≤ bytes.length := by
  unfold decodes at h
  split at h
  · next hd =>
    obtain ⟨hle,htotal⟩ := decode_length hd
    rw [List.length_take] at hle htotal
    have hheader : 8 + 4 ≤ headerSize := by decide
    rw [loadAt_take (by omega)] at htotal
    omega
  · cases h

/-- Bytes that hold no record end the scan: with an error, unless they look like a torn tail
and the tail may be repaired. -/
theorem scanBytes_refused {b : Bool} (hlong : headerSize ≤ bytes.length)
    (hr : accepted st bytes = false) :
    (b = true ∧ decodes bytes = false ∧ inMiddle bytes = false ∧
      scanBytes b st bytes = .ok ([],0)) ∨
    (b = false ∨ decodes bytes = true ∨ inMiddle bytes = true) ∧
      ∃ e, scanBytes b st bytes = .error e := by
  have hne : bytes ≠ [] := by
    rintro rfl
    exact absurd hlong (by decide)
  rw [scanBytes,if_neg hne,if_neg (Nat.not_lt.mpr hlong)]
  dsimp only
  by_cases htotal : loadAt 4 bytes 8 < headerSize ∨ bytes.length < loadAt 4 bytes 8
  · have hdecodes : decodes bytes = false := by
      by_contra hd
      have hlength := decodes_length (eq_true_of_ne_false hd)
      omega
    have hmiddle : inMiddle bytes = false := by
      rw [inMiddle,decide_eq_false_iff_not]
      omega
    rw [dif_pos htotal]
    cases b with
    | true => exact .inl ⟨rfl,hdecodes,hmiddle,rfl⟩
    | false => exact .inr ⟨.inl rfl,_,rfl⟩
  · rw [dif_neg htotal]
    rw [accepted] at hr
    cases hd : decode (bytes.take (loadAt 4 bytes 8)) with
    | ok r =>
      rw [hd] at hr
      have hdecodes : decodes bytes = true := by rw [decodes,hd]
      refine .inr ⟨.inr (.inl hdecodes),?_⟩
      cases hc : st.check r with
      | ok _ => simp [hc] at hr
      | error e =>
        refine ⟨e,?_⟩
        dsimp only
        generalize st.check r = c at hc ⊢
        subst hc
        rfl
    | error e =>
      have hdecodes : decodes bytes = false := by rw [decodes,hd]
      dsimp only
      by_cases hlast : loadAt 4 bytes 8 = bytes.length
      · have hmiddle : inMiddle bytes = false := by
          rw [inMiddle,decide_eq_false_iff_not,hlast]
          simp
        rw [if_neg (not_not.mpr hlast)]
        cases b with
        | true => exact .inl ⟨rfl,hdecodes,hmiddle,rfl⟩
        | false => exact .inr ⟨.inl rfl,_,rfl⟩
      · have hmiddle : inMiddle bytes = true := by
          rw [inMiddle,decide_eq_true_eq]
          omega
        rw [if_pos hlast]
        exact .inr ⟨.inr (.inr hmiddle),_,rfl⟩

/-- The scan of a damaged file gets as far as the damaged record. -/
theorem scanBytes_damaged (h : WellFormedLog before) (repairTail : Bool) :
    scanBytes repairTail {} (layoutAll before ++ bytes) =
      match scanBytes repairTail (scanState before) bytes with
      | .error e => .error e
      | .ok (tail,offset) => .ok (before ++ tail,(layoutAll before).length + offset) :=
  scanBytes_layoutAll (fun r hr => shape_of_encodeCheck (h.check r hr)) (fun _ hr => h.decode hr)
    (scanFrom_of_linked [] h.linked)

/-- The file with a record in its middle damaged. -/
def damagedFile (before : List LogRecord) (damaged : List UInt8) (after : List LogRecord) :
    List UInt8 :=
  layoutAll before ++ (damaged ++ layoutAll after)

/-- A scan always reports the damage. Opening the file reports it where the damaged record still
announces a length that ends before the end of the file, or where it decodes. -/
theorem middle_corruption_iff (h : WellFormedLog (before ++ r::after))
    (hlength : damaged.length = (layout r r.lsn).length)
    (hdamaged : accepted (scanState before) (damaged ++ layoutAll after) = false) :
    ((∀ f : LogFile, f.bytes = damagedFile before damaged after → ∃ e, f.scan = .error e) ∧
      ∃ e, openLog (damagedFile before damaged after) = .error e) ↔
    decodes (damaged ++ layoutAll after) = true ∨ inMiddle (damaged ++ layoutAll after) = true := by
  have hlong : headerSize ≤ (damaged ++ layoutAll after).length := by
    rw [List.length_append,hlength,length_layout]
    omega
  have hbefore : WellFormedLog before := h.of_append
  have hscan : ∀ f : LogFile, f.bytes = damagedFile before damaged after →
      ∃ e, f.scan = .error e := by
    intro f hf
    rcases scanBytes_refused (b := false) hlong hdamaged with ⟨he,-⟩ | ⟨-,e,he⟩
    · cases he
    · refine ⟨e,?_⟩
      rw [LogFile.scan,hf,damagedFile,scanBytes_damaged hbefore,he]
  rw [and_iff_right hscan]
  constructor
  · rintro ⟨e,hopen⟩
    rcases scanBytes_refused (b := true) hlong hdamaged with ⟨-,-,-,hok⟩ | ⟨hc,-⟩
    · rw [openLog,damagedFile,scanBytes_damaged hbefore,hok] at hopen
      cases hopen
    · simpa using hc
  · intro hc
    rcases scanBytes_refused (b := true) hlong hdamaged with ⟨-,hd,hm,-⟩ | ⟨-,e,he⟩
    · simp [hd,hm] at hc
    · exact ⟨e,by rw [openLog,damagedFile,scanBytes_damaged hbefore,he]⟩

/-! Two records, the length of the first one overwritten by zero. -/

def sampleBegin (t : TxnId) : LogRecord := { type := .begin, txnId := t }

def sampleLog : List LogRecord := [(sampleBegin 1).written 1,(sampleBegin 2).written 2]

def sampleDamaged : List UInt8 := (layout ((sampleBegin 1).written 1) 1).set 8 0

def sampleDamagedEnd : List UInt8 := sampleDamaged ++ layoutAll [(sampleBegin 2).written 2]

theorem sampleLog_wellFormed : WellFormedLog sampleLog := by
  have hf : Fits (sampleBegin 2) := ⟨by decide,by decide,by decide,by decide⟩
  have hc : encodeCheck (sampleBegin 2) = .ok () := rfl
  obtain ⟨g,-,hg,-,hnext⟩ := wellFormed_begin.append (f := ⟨_,1,1⟩) hc hf rfl rfl rfl
  refine hnext ?_
  rw [hg,layoutAll_append,layoutAll_cons,layoutAll_cons,layoutAll_nil,List.length_append,
    List.append_nil,List.append_nil,length_layout,length_layout]
  decide

theorem sampleDamaged_total : loadAt 4 sampleDamagedEnd 8 = 0 := by
  decide +kernel

theorem sampleDamaged_length :
    sampleDamaged.length = (layout ((sampleBegin 1).written 1) 1).length :=
  List.length_set

theorem sampleDamaged_accepted : accepted {} sampleDamagedEnd = false := by
  rw [accepted,sampleDamaged_total]
  rfl

theorem sampleDamaged_decodes : decodes sampleDamagedEnd = false := by
  rw [decodes,sampleDamaged_total]
  rfl

theorem sampleDamaged_middle : inMiddle sampleDamagedEnd = false := by
  rw [inMiddle,sampleDamaged_total]
  rfl

/-- One byte of the length is changed, and opening the file empties it. -/
theorem middle_corruption_lost : WellFormedLog sampleLog ∧
    sampleDamaged.length = (layout ((sampleBegin 1).written 1) 1).length ∧
    accepted {} sampleDamagedEnd = false ∧
    openLog (damagedFile [] sampleDamaged [(sampleBegin 2).written 2]) = .ok ⟨[],0,0⟩ := by
  refine ⟨sampleLog_wellFormed,sampleDamaged_length,sampleDamaged_accepted,?_⟩
  have hlong : headerSize ≤ sampleDamagedEnd.length := by
    rw [sampleDamagedEnd,List.length_append,sampleDamaged_length,length_layout]
    omega
  have hfile : damagedFile [] sampleDamaged [(sampleBegin 2).written 2] = sampleDamagedEnd := rfl
  rcases scanBytes_refused (b := true) hlong sampleDamaged_accepted with ⟨-,-,-,hok⟩ | ⟨hc,-⟩
  · rw [openLog,hfile,hok]
    rfl
  · simp [sampleDamaged_decodes,sampleDamaged_middle] at hc

theorem middle_corruption_iff_sample :
    ¬ ((∀ f : LogFile, f.bytes = damagedFile [] sampleDamaged [(sampleBegin 2).written 2] →
        ∃ e, f.scan = .error e) ∧
      ∃ e, openLog (damagedFile [] sampleDamaged [(sampleBegin 2).written 2]) = .error e) := by
  intro h
  have hlog : WellFormedLog ([] ++ (sampleBegin 1).written 1::[(sampleBegin 2).written 2]) :=
    sampleLog_wellFormed
  have hc := (middle_corruption_iff hlog sampleDamaged_length sampleDamaged_accepted).mp h
  change decodes sampleDamagedEnd = true ∨ inMiddle sampleDamagedEnd = true at hc
  simp [sampleDamaged_decodes,sampleDamaged_middle] at hc

end Storage
end OurSql
