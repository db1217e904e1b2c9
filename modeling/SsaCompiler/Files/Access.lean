/-!
# Access to files

The operations on files that compiling from files takes. What is built on them runs in any monad
that offers them.
-/

namespace SsaCompiler

structure FileAccess (m : Type → Type) where
  read : String → m (Option String)
  isFile : String → m Bool
  /-- Makes a directory and the directories it lies in; tells whether it is there. -/
  createDirectories : String → m Bool
  write : String → String → m Bool

end SsaCompiler
