namespace ChunkExchange

/-- Why work on a tree failed. -/
inductive StorageError where
  | notFound
  | alreadyExists
  | isADirectory
  | notADirectory
  | directoryNotEmpty
  | busy
  | nameTooLong
  | fileTooLarge
  | invalidInput
deriving DecidableEq

end ChunkExchange
