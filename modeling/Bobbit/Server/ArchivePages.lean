import Bobbit.Server.GoalStore
import Bobbit.Server.SessionStore

/-!
# Pages of the archive

Model of `listArchivedGoalsPaginated` of `src/server/agent/goal-store.ts` and of
`listArchivedSessionsPaginated` of `src/server/agent/session-store.ts`. The two have one body, which
reads two fields of a record. Times are whole milliseconds.
-/

namespace Bobbit.Server

open Lib

/-- The fields that the listings read. -/
class ArchivedRecord (ρ : Type) where
  archived : ρ → Bool
  archivedAt : ρ → Option Int

instance goalArchivedRecord : ArchivedRecord GoalRecord where
  archived record := record.get "archived" = .bool true
  archivedAt record :=
    match record.get "archivedAt" with
    | .num value => some value
    | _ => none

instance sessionArchivedRecord : ArchivedRecord SessionRow where
  archived row := row.archived
  archivedAt row := row.archivedAt

structure ArchivePage (ρ : Type) where
  records : List ρ
  total : Nat
  hasMore : Bool
  nextCursor : Option Int

variable {ρ : Type} [ArchivedRecord ρ]

/-- `archivedAt ?? 0`. -/
def archiveTime (record : ρ) : Int := (ArchivedRecord.archivedAt record).getD 0

def getArchived (records : List ρ) : List ρ := records.filter ArchivedRecord.archived

/-- `getArchived().sort(…)`. -/
def archivedNewestFirst (records : List ρ) : List ρ :=
  (getArchived records).mergeSort fun a b => archiveTime b - archiveTime a ≤ 0

/-- The records that a page is taken from. -/
def archivedAfter (records : List ρ) : Option Int → List ρ
  | none => archivedNewestFirst records
  | some afterCursor => (archivedNewestFirst records).filter (archiveTime · < afterCursor)

/-- The body of both listings, over the values of the store's map. -/
def listArchivedPaginated (records : List ρ) (limit : Nat) (afterCursor : Option Int) :
    ArchivePage ρ :=
  let archived := archivedAfter records afterCursor
  let page := archived.take limit
  { records := page
    total := (archivedNewestFirst records).length
    hasMore := archived.length > limit
    nextCursor := page.getLast?.bind ArchivedRecord.archivedAt }

def listArchivedGoalsPaginated (goals : List GoalRecord) (limit : Nat) (afterCursor : Option Int) :
    ArchivePage GoalRecord := listArchivedPaginated goals limit afterCursor

def listArchivedSessionsPaginated (sessions : List SessionRow) (limit : Nat)
    (afterCursor : Option Int) : ArchivePage SessionRow :=
  listArchivedPaginated sessions limit afterCursor

end Bobbit.Server
