import KioExtras.Activities.Links
import KioExtras.Afc.Places
import KioExtras.Afc.ReadLoops
import KioExtras.Archive.DirSize
import KioExtras.Archive.Get
import KioExtras.FileNameSearch.Content
import KioExtras.FileNameSearch.ExternalTool
import KioExtras.FileNameSearch.Links
import KioExtras.FileNameSearch.Notify
import KioExtras.FileNameSearch.Visited
import KioExtras.FileNameSearch.WordList
import KioExtras.Filter.Get
import KioExtras.Fish.Answers
import KioExtras.Fish.Check
import KioExtras.Fish.Copy
import KioExtras.Fish.LsTime
import KioExtras.Fish.Malformed
import KioExtras.Fish.ReadLoop
import KioExtras.Fish.Upload
import KioExtras.Fish.Written
import KioExtras.Info.Links
import KioExtras.Kcms.SearchProviderDialog
import KioExtras.Kcms.Trash
import KioExtras.Kcms.WebShortcuts
import KioExtras.Lib.Links
import KioExtras.Lib.Paths
import KioExtras.Man.Arguments
import KioExtras.Man.Bounds
import KioExtras.Man.Index
import KioExtras.Man.Indices
import KioExtras.Man.LeftToRight
import KioExtras.Man.Links
import KioExtras.Man.Output
import KioExtras.Man.Pages
import KioExtras.Man.Registers
import KioExtras.Man.Tables
import KioExtras.Mtp.Addresses
import KioExtras.Mtp.CacheRuns
import KioExtras.Mtp.Daemon
import KioExtras.Mtp.Delete
import KioExtras.Mtp.Replace
import KioExtras.Mtp.Transfers
import KioExtras.Nfs.Assign
import KioExtras.Nfs.Copy
import KioExtras.Nfs.Exports
import KioExtras.Nfs.Handles
import KioExtras.Nfs.LinkTargets
import KioExtras.Nfs.Put
import KioExtras.RecentlyUsed.ListDir
import KioExtras.Sftp.Aio
import KioExtras.Sftp.CopyGet
import KioExtras.Sftp.Login
import KioExtras.Sftp.OpenFile
import KioExtras.Sftp.Permissions
import KioExtras.Sftp.PreAio
import KioExtras.Sftp.Put
import KioExtras.Sftp.Rename
import KioExtras.Sftp.Symlink
import KioExtras.Smb.AddPath
import KioExtras.Smb.Authenticator
import KioExtras.Smb.CheckURL
import KioExtras.Smb.Conclude
import KioExtras.Smb.Copy
import KioExtras.Smb.Descriptors
import KioExtras.Smb.Discoverers
import KioExtras.Smb.ListDir
import KioExtras.Smb.Notifier
import KioExtras.Smb.ReadErrors
import KioExtras.Smb.Rename
import KioExtras.Smb.ShortWrites
import KioExtras.Smb.SmbcTargets
import KioExtras.Smb.Watcher
import KioExtras.Thumbnail.Cache
import KioExtras.Thumbnail.Comic
import KioExtras.Thumbnail.Directory
import KioExtras.Thumbnail.Ebook
import KioExtras.Thumbnail.Folder
import KioExtras.Thumbnail.Outside
import KioExtras.Thumbnail.Reuse
import KioExtras.Thumbnail.StackBlur
