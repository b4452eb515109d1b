import MapScript.CommandLine.Folder

/-!
# Jobs

What a command does to files is a job: a tree of requests, each with what happens after the answer.
A job can be carried out on the files of a machine, or on a folder that is only a list of files.
-/
namespace MapScript

/-- What a command printed, and its exit code. -/
structure Finish where
  exit : Nat
  output : String
  errors : String
deriving DecidableEq, Repr

inductive Job where
  | finish (result : Finish)
  | read (path : String) (next : Except FileFault String → Job)
  | write (path text : String) (next : Option FileFault → Job)

/-- Carries a job out on a folder. -/
def Job.run : Job → Folder → Finish × Folder
  | .finish result, folder => (result, folder)
  | .read path next, folder => (next (folder.read path)).run folder
  | .write path text next, folder =>
    match folder.write path text with
    | .error reason => (next (some reason)).run folder
    | .ok folder => (next none).run folder

end MapScript
