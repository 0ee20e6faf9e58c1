import RecordTables.Proofs.Database.Connections
import RecordTables.Proofs.Record.Agreement

/-!
# Reopening a file

A file that is closed and opened again in the middle of its use gives the same answers as one that stays open, the
counts of changed rows included, although a fresh connection counts from zero.
-/

namespace RecordTables

namespace SessionStep

/-- Two uses of a file that differ only in when its connection was opened and closed are answered alike, step by
step. -/
theorem transcript_reopened (registry : Registry) {location : Location} (options : OpenOptions)
    (file : Option Engine.Store) {steps others : List SessionStep} (hlocation : location ≠ .memory)
    (h : steps.filter (fun s => !s.isConnection) = others.filter fun s => !s.isConnection) :
    (transcript registry steps { location, options, file }).filter (fun e => !e.1.isConnection) =
      (transcript registry others { location, options, file }).filter fun e => !e.1.isConnection := by
  have hstart : Database.Steady { location, options, file } := .of_not_connected rfl
  have hfilter := fun steps => (transcript_filter registry hstart hstart hlocation rfl rfl rfl steps).1
  rw [hfilter, hfilter, h]

/-- A table is ensured, and a task is inserted, updated and deleted, with the connection closed in between and once
opened for its own sake. -/
def taskUse : List SessionStep :=
  let task := Gallery.task "gallery"
  [.ensure task, .record task (.insert RecordType.notedTask), .close, .record task (.update RecordType.notedTask),
    .close, .connect, .connect, .table task, .record task (.delete RecordType.notedTask)]

theorem transcript_reopened_task :
    (transcript .empty taskUse { location := .file "tasks", options := {} }).filter (fun e => !e.1.isConnection) =
      (transcript .empty (taskUse.filter fun s => !s.isConnection) { location := .file "tasks", options := {} }).filter
        fun e => !e.1.isConnection :=
  transcript_reopened .empty {} none (by decide) rfl

end SessionStep

end RecordTables
