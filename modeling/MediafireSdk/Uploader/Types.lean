import MediafireSdk.Uploader.Hasher
import MediafireSdk.Utils.FileIO

/-! Vocabulary of the upload state machine: counting and chunk states
(`detail/types.hpp`), error codes (`error.hpp`), the events of
`detail/upload_events.hpp` and `detail/hasher_events.hpp`, and the statuses of
`upload_status.hpp`. -/

namespace MediafireSdk.Uploader

open Utils

inductive CountState where
  | none | hashing | uploading
  deriving DecidableEq, Repr

inductive ChunkState where
  | needsUpload | uploading | uploaded
  deriving DecidableEq, Repr

inductive OnDuplicateAction where
  | fail | replace | autoRename
  deriving DecidableEq, Repr

/-! ### Error codes -/

/-- The values of `uploader::errc` that the uploader makes codes of. -/
inductive Errc where
  | cancelled | fileExistInFolder | insufficientCloudStorage | logicError | paused | zeroByteFile
  deriving DecidableEq, Repr

/-- A `std::error_code`, by category. `foreign` is the code of a response the uploader only
passes on. -/
inductive ErrorCode where
  | upload (e : Errc)
  | system (value : ℤ)
  | fileIo (e : FileIoError)
  | contentInvalidData
  | uploadResponse (value : ℤ)
  | pollResult (value : ℤ)
  | pollUploadFile (value : ℤ)
  | foreign (category : String) (value : ℤ)
  deriving DecidableEq, Repr

/-! ### Events -/

/-- Events of both namespaces; those of `hash_event` have the prefix `hash`. -/
inductive Event where
  | error (errorCode : ErrorCode) (description : String)
  | start
  | startHash
  | startUpload (uploadActionToken : String)
  | needsSingleUpload
  | needsChunkUpload
  | instantUpload
  | alreadyUploaded (quickkey filename : String)
  | chunkSuccess (chunkId : ℕ) (uploadKey : String)
  | simpleUploadComplete (uploadKey : String)
  | chunkUploadComplete (uploadKey : String)
  | instantSuccess (quickkey filename : String) (newDeviceRevision : ℕ)
  | pollComplete (quickkey filename : String) (newDeviceRevision : ℕ)
  | hashStartHash (state : HasherStateData)
  | hashReadNext (state : HasherStateData) (fileIo : FileIO) (readBytePos : ℕ)
  | hashSuccess (state : HasherStateData) (sha256Hash : String)
  | hashError (errorCode : ErrorCode) (description : String)
  deriving DecidableEq, Repr

/-! ### Statuses -/

/-- `UploadState`. -/
inductive UploadState where
  | enqueuedForHashing
  | hashing
  | enqueuedForUpload
  | uploading
  | polling
  | error (errorCode : ErrorCode) (description : String) (hash : Option String)
  | complete (quickkey filename hash : String) (newRevision : Option ℕ)
  deriving DecidableEq, Repr

/-- `Error` and `Complete` end an upload. -/
def UploadState.isTerminal : UploadState → Bool
  | .error .. | .complete .. => true
  | _ => false

end MediafireSdk.Uploader
