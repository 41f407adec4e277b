import Mathlib.Tactic
import Schurfer.Lib.Txn

/-!
# Receipts of archived cold bars

A day of bars is exported to a Parquet with a manifest, the directory goes into an archive, and a receipt is written
for its days. A receipt is never replaced, while the files it describes can be exported and archived again.
-/

namespace Schurfer.ColdBars

open Function

def schemaVersion : String := "cold_bars_v1"

structure ExportManifest where
  schemaVersion : String
  rowCount : ℕ
  fileBytes : ℕ
  sha256 : String
  exportedAt : ℤ
  sourceFingerprint : Option String
  fileFingerprint : Option String
  fidelityVerified : Option Bool

structure DropReceipt (δ : Type) where
  day : δ
  archiveName : String
  parquetSha256 : String
  manifestSha256 : String
  rowCount : ℕ
  schemaVersion : String
  sourceFingerprint : String
  fileFingerprint : String
  fidelityVerified : Bool

structure Reading (β : Type) where
  size : β → ℕ
  sha256 : β → String
  rowCount : β → ℕ
  fingerprint : β → String
  manifestSha256 : ExportManifest → String

structure Files (δ β : Type) where
  parquet : δ → Option β
  manifest : δ → Option ExportManifest

structure Disk (δ β : Type) extends Files δ β where
  receipt : δ → Option (DropReceipt δ)

structure Export (δ β : Type) where
  day : δ
  rowCount : ℕ
  parquet : β
  sourceFingerprint : Option String
  withFingerprint : Bool
  exportedAt : ℤ

inductive Status
  | receipted | legacySkip | failed
deriving DecidableEq

variable {δ β : Type} [DecidableEq δ] (r : Reading β)

def Export.manifest (x : Export δ β) (source file : Option String) (fidelity : Option Bool) : ExportManifest :=
  ⟨ColdBars.schemaVersion, x.rowCount, r.size x.parquet, r.sha256 x.parquet, x.exportedAt, source, file, fidelity⟩

def exportDay (x : Export δ β) (disk : Disk δ β) : Disk δ β :=
  if x.rowCount = 0 ∨ r.rowCount x.parquet ≠ x.rowCount then disk
  else
    -- the Parquet is renamed into its place before the fingerprints are taken
    let disk := { disk with parquet := Function.update disk.parquet x.day (some x.parquet) }
    let write (m : ExportManifest) := { disk with manifest := Function.update disk.manifest x.day (some m) }
    if x.withFingerprint then
      match x.sourceFingerprint with
      | none => disk
      | some source =>
        let file := r.fingerprint x.parquet
        write (x.manifest r (some source) (some file) (some (source == file)))
    else write (x.manifest r none none none)

def verifyLocal (disk : Disk δ β) (day : δ) : Option ExportManifest :=
  match disk.manifest day, disk.parquet day with
  | some m, some p =>
    if m.schemaVersion = schemaVersion ∧ r.size p = m.fileBytes ∧ r.sha256 p = m.sha256 then some m else none
  | _, _ => none

def Disk.writeReceipt (disk : Disk δ β) (receipt : DropReceipt δ) : Disk δ β :=
  if (disk.receipt receipt.day).isSome then disk
  else { disk with receipt := Function.update disk.receipt receipt.day (some receipt) }

def receiptDay (archiveName : String) (disk : Disk δ β) (day : δ) : Disk δ β × Status :=
  match verifyLocal r disk day with
  | none => (disk, .failed)
  | some m =>
    match m.sourceFingerprint.filter (· ≠ ""), m.fileFingerprint.filter (· ≠ ""), m.fidelityVerified with
    | some source, some file, some fidelity =>
      if fidelity = true ∧ source = file then
        (disk.writeReceipt ⟨day, archiveName, m.sha256, r.manifestSha256 m, m.rowCount, m.schemaVersion, source, file,
          fidelity⟩, .receipted)
      else (disk, .failed)
    | _, _, _ => (disk, .legacySkip)

def writeReceiptsForArchive (archiveName : String) : List δ → Disk δ β → Disk δ β × List (δ × Status)
  | [], disk => (disk, [])
  | day :: days, disk =>
    let (disk, status) := receiptDay r archiveName disk day
    let (disk, result) := writeReceiptsForArchive archiveName days disk
    (disk, (day, status) :: result)

structure State (δ β : Type) where
  disk : Disk δ β
  archives : List (String × Files δ β)

inductive Op (δ β : Type)
  | exportDay (x : Export δ β)
  | createArchive (name : String)
  | writeReceipts (archiveName : String) (archivedDays : List δ)

def State.init : State δ β := ⟨⟨⟨fun _ => none, fun _ => none⟩, fun _ => none⟩, []⟩

def State.step (s : State δ β) : Op δ β → State δ β
  | .exportDay x => { s with disk := ColdBars.exportDay r x s.disk }
  | .createArchive name =>
    if (s.archives.lookup name).isSome then s else { s with archives := (name, s.disk.toFiles) :: s.archives }
  | .writeReceipts name days => { s with disk := (writeReceiptsForArchive r name days s.disk).1 }

def State.reports (s : State δ β) : Op δ β → List (δ × Status)
  | .writeReceipts name days => (writeReceiptsForArchive r name days s.disk).2
  | _ => []

def stateAfter (ops : List (Op δ β)) (n : ℕ) : State δ β := Run.stateAt (State.step r) State.init ops n

/-- **The receipt of the day** carries the hashes of the files on disk, which are those in the archive it names. -/
def Described (s : State δ β) (day : δ) : Prop :=
  ∃ p m receipt files, s.disk.parquet day = some p ∧ s.disk.manifest day = some m ∧
    s.disk.receipt day = some receipt ∧ receipt.parquetSha256 = r.sha256 p ∧
    receipt.manifestSha256 = r.manifestSha256 m ∧ s.archives.lookup receipt.archiveName = some files ∧
    files.parquet day = some p ∧ files.manifest day = some m

/-- The archive holds the files of the days as they are on disk. -/
def Holds (s : State δ β) (name : String) (days : List δ) : Prop :=
  ∃ files, s.archives.lookup name = some files ∧
    ∀ day ∈ days, files.parquet day = s.disk.parquet day ∧ files.manifest day = s.disk.manifest day

/-- No day that has a receipt is exported, and receipts are written while the archived files are those on disk. -/
def Careful (s : State δ β) : Op δ β → Prop
  | .exportDay x => s.disk.receipt x.day = none
  | .createArchive _ => True
  | .writeReceipts name days => Holds s name days

variable {r} {s : State δ β} {disk : Disk δ β} {day : δ} {name : String}

omit [DecidableEq δ] in
theorem verifyLocal_eq_some {m : ExportManifest} (h : verifyLocal r disk day = some m) :
    disk.manifest day = some m ∧ ∃ p, disk.parquet day = some p ∧ m.sha256 = r.sha256 p := by
  unfold verifyLocal at h
  split at h
  · rename_i m' p hm hp
    split at h
    · rename_i hmt
      cases h
      exact ⟨hm, p, hp, hmt.2.2.symm⟩
    · cases h
  · cases h

theorem receiptDay_spec (name : String) (disk : Disk δ β) (day : δ) :
    (receiptDay r name disk day).1.toFiles = disk.toFiles ∧
    ((receiptDay r name disk day).2 = .receipted → ((receiptDay r name disk day).1.receipt day).isSome) ∧
    ∀ day', (receiptDay r name disk day).1.receipt day' = disk.receipt day' ∨
      day' = day ∧ ∃ p m receipt, disk.parquet day = some p ∧ disk.manifest day = some m ∧
        (receiptDay r name disk day).1.receipt day = some receipt ∧ receipt.archiveName = name ∧
        receipt.parquetSha256 = r.sha256 p ∧ receipt.manifestSha256 = r.manifestSha256 m := by
  unfold receiptDay
  split
  · exact ⟨rfl, nofun, fun _ => .inl rfl⟩
  · rename_i m hvr
    obtain ⟨hm, p, hp, hsha⟩ := verifyLocal_eq_some hvr
    split
    · split
      · unfold Disk.writeReceipt
        split
        · rename_i hsm
          exact ⟨rfl, fun _ => hsm, fun _ => .inl rfl⟩
        · refine ⟨rfl, fun _ => by simp, fun day' => ?_⟩
          by_cases hday : day' = day
          · exact .inr ⟨hday, p, m, _, hp, hm, update_self _ _ _, rfl, hsha, rfl⟩
          · exact .inl (update_of_ne hday _ _)
      · exact ⟨rfl, nofun, fun _ => .inl rfl⟩
    · exact ⟨rfl, nofun, fun _ => .inl rfl⟩

def Sound (r : Reading β) (s : State δ β) : Prop := ∀ day, (s.disk.receipt day).isSome → Described r s day

theorem writeReceipts_keeps (days : List δ) (disk : Disk δ β) (h : (disk.receipt day).isSome) :
    ((writeReceiptsForArchive r name days disk).1.receipt day).isSome := by
  induction days generalizing disk with
  | nil => exact h
  | cons day' days ih =>
    refine ih (receiptDay r name disk day').1 ?_
    rcases (@receiptDay_spec _ _ _ r name disk day').2.2 day with hsame | ⟨rfl, -, -, receipt, -, -, hnew, -⟩
    · rw [hsame]
      exact h
    · rw [hnew]
      rfl

theorem writeReceipts_sound {days : List δ} (hs : Sound r s) (hhl : Holds s name days) :
    Sound r { s with disk := (writeReceiptsForArchive r name days s.disk).1 } ∧
      ∀ day, (day, Status.receipted) ∈ (writeReceiptsForArchive r name days s.disk).2 →
        ((writeReceiptsForArchive r name days s.disk).1.receipt day).isSome := by
  -- one day after the other; a receipt that a day left stays for the rest
  induction days generalizing s with
  | nil => exact ⟨hs, nofun⟩
  | cons day days ih =>
    obtain ⟨hfl, hrp, hrc⟩ := @receiptDay_spec _ _ _ r name s.disk day
    obtain ⟨files, hlk, hhe⟩ := hhl
    have hpr := congrArg Files.parquet hfl
    have hmn := congrArg Files.manifest hfl
    unfold writeReceiptsForArchive
    generalize receiptDay r name s.disk day = first at *
    obtain ⟨disk, status⟩ := first
    have hsn : Sound r { s with disk } := by
      intro day' hsm
      rcases hrc day' with hsame | ⟨rfl, p, m, receipt, hp, hm, hnew, hnm, hsha, hms⟩
      · rw [show ({ s with disk } : State δ β).disk.receipt day' = s.disk.receipt day' from hsame] at hsm
        obtain ⟨p, m, receipt, files, hp, hm, hr, hrs⟩ := hs day' hsm
        exact ⟨p, m, receipt, files, hpr ▸ hp, hmn ▸ hm, hsame.trans hr, hrs⟩
      · obtain ⟨hfp, hfm⟩ := hhe day' List.mem_cons_self
        exact ⟨p, m, receipt, files, hpr ▸ hp, hmn ▸ hm, hnew, hsha, hms, hnm ▸ hlk, hfp.trans hp, hfm.trans hm⟩
    obtain ⟨hrs, hsm⟩ := @ih { s with disk } hsn ⟨files, hlk, fun d hd => by
        rw [hpr, hmn]
        exact hhe d (List.mem_cons_of_mem day hd)⟩
    refine ⟨hrs, fun day' hmem => ?_⟩
    rcases List.mem_cons.1 hmem with heq | hmem
    · cases heq
      exact writeReceipts_keeps days disk (hrp rfl)
    · exact hsm day' hmem

theorem exportDay_other (x : Export δ β) (disk : Disk δ β) :
    (exportDay r x disk).receipt = disk.receipt ∧ ∀ day, day ≠ x.day →
      (exportDay r x disk).parquet day = disk.parquet day ∧ (exportDay r x disk).manifest day = disk.manifest day := by
  unfold exportDay
  split
  · exact ⟨rfl, fun _ _ => ⟨rfl, rfl⟩⟩
  split
  · split
    · exact ⟨rfl, fun day hday => ⟨update_of_ne hday _ _, rfl⟩⟩
    · exact ⟨rfl, fun day hday => ⟨update_of_ne hday _ _, update_of_ne hday _ _⟩⟩
  · exact ⟨rfl, fun day hday => ⟨update_of_ne hday _ _, update_of_ne hday _ _⟩⟩

theorem step_sound {op : Op δ β} (hs : Sound r s) (hop : Careful s op) : Sound r (s.step r op) := by
  cases op with
  | exportDay x =>
    obtain ⟨hrc, hot⟩ := @exportDay_other _ _ _ r x s.disk
    intro day hsm
    replace hsm : (s.disk.receipt day).isSome := by rwa [← hrc]
    have hday : day ≠ x.day := by
      rintro rfl
      rw [show s.disk.receipt x.day = none from hop] at hsm
      cases hsm
    obtain ⟨p, m, receipt, files, hp, hm, hr, hrs⟩ := hs day hsm
    obtain ⟨hpr, hmn⟩ := hot day hday
    exact ⟨p, m, receipt, files, hpr.trans hp, hmn.trans hm, (congrFun hrc day).trans hr, hrs⟩
  | createArchive name =>
    unfold State.step
    dsimp only
    split
    · exact hs
    · rename_i hnew
      intro day hsm
      obtain ⟨p, m, receipt, files, hp, hm, hr, hsha, hms, hlk, hrs⟩ := hs day hsm
      refine ⟨p, m, receipt, files, hp, hm, hr, hsha, hms, ?_, hrs⟩
      -- the name of the receipt's archive was taken before
      have hne : receipt.archiveName ≠ name := by
        rintro rfl
        rw [hlk] at hnew
        exact hnew rfl
      rw [List.lookup_cons, beq_false_of_ne hne]
      exact hlk
  | writeReceipts => exact (writeReceipts_sound hs hop).1

theorem sound_stateAfter {ops : List (Op δ β)}
    (hcr : ∀ n op, ops[n]? = some op → Careful (stateAfter r ops n) op) (n : ℕ) : Sound r (stateAfter r ops n) :=
  Run.invariant nofun (fun n op hop hs => step_sound hs (hcr n op hop)) n

/-- **A receipted day is offsite**, in every run whose calls are careful. -/
theorem receipted_offsite (r : Reading β) (ops : List (Op δ β))
    (hcareful : ∀ n op, ops[n]? = some op → Careful (stateAfter r ops n) op) {n : ℕ} {op : Op δ β}
    (hop : ops[n]? = some op) {day : δ} (hreported : (day, Status.receipted) ∈ (stateAfter r ops n).reports r op) :
    Described r (stateAfter r ops (n + 1)) day := by
  refine sound_stateAfter hcareful (n + 1) day ?_
  rw [show stateAfter r ops (n + 1) = (stateAfter r ops n).step r op from Run.stateAt_succ hop]
  cases op with
  | writeReceipts name days =>
    exact (writeReceipts_sound (sound_stateAfter hcareful n) (hcareful n _ hop)).2 day hreported
  | exportDay | createArchive => cases hreported

def plainReading : Reading String := ⟨String.length, id, fun _ => 1, id, fun m => m.sha256⟩

def exported (parquet : String) : Op ℕ String := .exportDay ⟨0, 1, parquet, some parquet, true, 0⟩

def archivedOnce : List (Op ℕ String) := [exported "old", .createArchive "bars-1", .writeReceipts "bars-1" [0]]

theorem archivedOnce_offsite :
    (0, Status.receipted) ∈
        (stateAfter plainReading archivedOnce 2).reports plainReading (.writeReceipts "bars-1" [0]) ∧
      Described plainReading (stateAfter plainReading archivedOnce 3) 0 := by
  have hreported : (0, Status.receipted) ∈
      (stateAfter plainReading archivedOnce 2).reports plainReading (.writeReceipts "bars-1" [0]) := by decide
  refine ⟨hreported, receipted_offsite plainReading archivedOnce (fun n op hop => ?_) (n := 2) rfl hreported⟩
  match n, hop with
  | 0, hop =>
    cases hop
    rfl
  | 1, hop =>
    cases hop
    trivial
  | 2, hop =>
    cases hop
    exact ⟨_, rfl, fun _ _ => ⟨rfl, rfl⟩⟩
  | n + 3, hop => cases hop

def reexported : List (Op ℕ String) :=
  archivedOnce ++ [exported "new", .createArchive "bars-2", .writeReceipts "bars-2" [0]]

theorem reexported_receipted :
    Holds (stateAfter plainReading reexported 5) "bars-2" [0] ∧
      (0, Status.receipted) ∈
        (stateAfter plainReading reexported 5).reports plainReading (.writeReceipts "bars-2" [0]) ∧
      ¬ Described plainReading (stateAfter plainReading reexported 6) 0 := by
  refine ⟨⟨_, rfl, fun _ _ => ⟨rfl, rfl⟩⟩, by decide, ?_⟩
  rintro ⟨p, m, receipt, files, hp, hm, hr, hsha, -⟩
  cases hp
  cases hr
  exact absurd hsha (by decide)

end Schurfer.ColdBars
